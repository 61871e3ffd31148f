/-
The **refresh of the pools' usage** (`ceph_proxy/RadosMonitor.cc`): a round of `UpdatePoolUsage`
records the pools it finds in the monitor's `df` text, makes `poolInfoMap` the map of these pools
and reports them to CCM.

Between recording and reporting a pool is in `tmpPoolInfoMap` and `poolList`, and only
`UpdatePoolList` empties the two. A round that fails at a line leaves the pools of the lines
before it there, for the next round to take for its own.

What a line matches and what `Record` makes of it (it asks the monitor for the rest of the pool's
data) is an input. `refresh_fresh_iff` says which histories keep the rounds apart.
-/
import GcAdaptor.Interleave
import GcAdaptor.Cxx

set_option autoImplicit false

namespace GcAdaptor.PoolUsage

open GcAdaptor.Wire GcAdaptor.Cxx

/-! ## A round -/

/-- What becomes of a line of the text. -/
inductive Line (α : Type)
  | noMatch
  | failed
  | recorded (poolId : ℕ) (info : α)

section Line

variable {α : Type}

def Line.isFailed : Line α → Bool
  | .failed => true
  | _ => false

def Line.pool : Line α → Option (ℕ × α)
  | .recorded poolId info => some (poolId, info)
  | _ => none

@[simp] theorem isFailed_noMatch : (Line.noMatch : Line α).isFailed = false := rfl
@[simp] theorem isFailed_failed : (Line.failed : Line α).isFailed = true := rfl
@[simp] theorem isFailed_recorded (poolId : ℕ) (info : α) :
    (Line.recorded poolId info).isFailed = false := rfl
@[simp] theorem pool_noMatch : (Line.noMatch : Line α).pool = none := rfl
@[simp] theorem pool_recorded (poolId : ℕ) (info : α) :
    (Line.recorded poolId info).pool = some (poolId, info) := rfl

end Line

/-- What a round meets. `lines i s` is for line `i` of the text, `s`. -/
structure Round (α : Type) where
  /-- what `mon_command` returns -/
  monRet : ℤ
  outbl : Bytes
  allocated : Bool := true
  lines : ℕ → Bytes → Line α
  /-- what `ReportCreatePool` returns -/
  ccmRet : ℤ

structure PoolUsageStat (α : Type) where
  poolInfoMap : List (ℕ × α) := []
  tmpPoolInfoMap : List (ℕ × α) := []
  poolList : List ℕ := []

section Round

variable {α : Type} [Inhabited α]

/-- The end of `Record`. -/
def record (s : PoolUsageStat α) (poolId : ℕ) (info : α) : PoolUsageStat α :=
  { s with
    tmpPoolInfoMap := mapSet poolId info s.tmpPoolInfoMap
    poolList := s.poolList ++ [poolId] }

/-- `tmpPoolInfoMap[poolId]` -/
def tmpInfo (s : PoolUsageStat α) (poolId : ℕ) : α := (s.tmpPoolInfoMap.lookup poolId).getD default

def compare (s : PoolUsageStat α) : PoolUsageStat α :=
  let poolInfoMap := s.poolList.foldl (fun m poolId => mapSet poolId (tmpInfo s poolId) m) s.poolInfoMap
  let deletedPool := (poolInfoMap.map (·.1)).filter fun poolId => poolId ∉ s.poolList
  { s with poolInfoMap :=
      deletedPool.foldl (fun m poolId => m.filter fun p => p.1 ≠ poolId) poolInfoMap }

/-- The loop of `GetPoolStorageUsage` over the lines. -/
def recordLoop : List (Line α) → PoolUsageStat α → Bool × PoolUsageStat α
  | [], s => (true, s)
  | .noMatch :: rest, s => recordLoop rest s
  | .failed :: _, s => (false, s)
  | .recorded poolId info :: rest, s => recordLoop rest (record s poolId info)

/-- The lines of the text. -/
def Round.read (r : Round α) : List (Line α) :=
  (strtok 10 (cStr r.outbl)).zipIdx.map fun p => r.lines p.2 p.1

def ENOMEM : ℤ := 12

def getPoolStorageUsage (r : Round α) (s : PoolUsageStat α) : ℤ × PoolUsageStat α :=
  if r.allocated = false then (-ENOMEM, s)
  else
    match recordLoop r.read s with
    -- the lines before the failed one stay recorded
    | (false, s) => (-1, s)
    | (true, s) => (0, compare s)

/-- What it returns, and the list that is reported. -/
def updatePoolList (r : Round α) (s : PoolUsageStat α) : ℤ × PoolUsageStat α × List ℕ :=
  (if r.ccmRet ≠ 0 then -1 else 0, { s with poolList := [], tmpPoolInfoMap := [] }, s.poolList)

/-- What it returns, the state, and the list that is reported, if the round gets there. -/
def updatePoolUsage (s : PoolUsageStat α) (r : Round α) : ℤ × PoolUsageStat α × Option (List ℕ) :=
  if r.monRet < 0 then (r.monRet, s, none)
  else
    match getPoolStorageUsage r s with
    | (ret, s) =>
      if ret ≠ 0 then (-1, s, none)
      else
        match updatePoolList r s with
        | (ret, s, tmpList) => (if ret ≠ 0 then -1 else 0, s, some tmpList)

/-! ## What a round should do -/

/-- The pools of the text, up to a line that fails. -/
def Round.pools (r : Round α) : List (ℕ × α) :=
  (r.read.takeWhile fun l => !l.isFailed).filterMap Line.pool

/-- The map is that of the round's pools, and they are what is reported. -/
structure Fresh (r : Round α) (s' : PoolUsageStat α) (reported : Option (List ℕ)) : Prop where
  keys : ∀ poolId, poolId ∈ s'.poolInfoMap.map (·.1) ↔ poolId ∈ r.pools.map (·.1)
  values : ∀ p ∈ r.pools, s'.poolInfoMap.lookup p.1 = some p.2
  reported : ∃ l, reported = some l ∧ l.Perm (r.pools.map (·.1))

/-- The text is there, and no line fails. -/
def Round.Parsed (r : Round α) : Prop :=
  ¬ r.monRet < 0 ∧ r.allocated = true ∧ ∀ l ∈ r.read, l.isFailed = false

/-- A line fails after another one has been recorded. -/
def Round.Leaves (r : Round α) : Prop :=
  ¬ r.monRet < 0 ∧ r.allocated = true ∧ r.pools ≠ [] ∧ ∃ l ∈ r.read, l.isFailed = true

/-- The state before round `n`. -/
def before (rounds : List (Round α)) (n : ℕ) : PoolUsageStat α :=
  Interleave.after (fun s r => (updatePoolUsage s r).2.1) {} rounds n

/-- A round before the `n`-th has left pools, and none since then has been parsed. -/
def Stale (rounds : List (Round α)) (n : ℕ) : Prop :=
  ∃ m < n, (∃ r, rounds[m]? = some r ∧ r.Leaves) ∧
    ∀ l, m < l → l < n → ∀ r, rounds[l]? = some r → ¬ r.Parsed

/-! ## One round -/

variable {s : PoolUsageStat α} {r : Round α}

omit [Inhabited α] in
/-- The lines up to one that fails have been recorded. -/
theorem recordLoop_eq (ls : List (Line α)) (s : PoolUsageStat α) :
    recordLoop ls s = (!ls.any Line.isFailed,
      { s with
        tmpPoolInfoMap := ((ls.takeWhile fun l => !l.isFailed).filterMap Line.pool).foldl
          (fun m p => mapSet p.1 p.2 m) s.tmpPoolInfoMap
        poolList := s.poolList ++
          ((ls.takeWhile fun l => !l.isFailed).filterMap Line.pool).map (·.1) }) := by
  induction ls generalizing s with
  | nil => simp [recordLoop]
  | cons l ls ih =>
    cases l with
    | noMatch => simp [recordLoop, ih, List.filterMap_cons]
    | failed => simp [recordLoop]
    | recorded poolId info => simp [recordLoop, ih, record]

/-- The map holds the pools of the list, and no others. -/
theorem lookup_compare (s : PoolUsageStat α) (x : ℕ) :
    (compare s).poolInfoMap.lookup x = if x ∈ s.poolList then some (tmpInfo s x) else none := by
  rw [compare]
  dsimp only
  rw [lookup_foldl_erase, lookup_foldl_mapSet]
  -- what the second loop erases is what the first one has not assigned
  split_ifs with hdeleted hmem
  · simp [hmem] at hdeleted
  · rfl
  · rfl
  · rename_i hmem
    by_contra hsome
    rw [← ne_eq, ← Option.isSome_iff_ne_none] at hsome
    refine hdeleted (List.mem_filter.mpr ⟨mem_keys_iff_isSome.mpr ?_, by simpa using hmem⟩)
    rw [lookup_foldl_mapSet, if_neg hmem]
    exact hsome

omit [Inhabited α] in
theorem parsed_iff (hmon : ¬ r.monRet < 0) (halloc : r.allocated = true) :
    r.Parsed ↔ r.read.any Line.isFailed = false := by
  rw [Round.Parsed, List.any_eq_false]
  simp only [hmon, halloc, not_false_eq_true, true_and, Bool.not_eq_true]

/-- The state behind the recorded lines. -/
def recorded (s : PoolUsageStat α) (r : Round α) : PoolUsageStat α :=
  { s with
    tmpPoolInfoMap := r.pools.foldl (fun m p => mapSet p.1 p.2 m) s.tmpPoolInfoMap
    poolList := s.poolList ++ r.pools.map (·.1) }

/-- A round that gets to the report. -/
theorem updatePoolUsage_of_parsed (h : r.Parsed) :
    updatePoolUsage s r = (if r.ccmRet ≠ 0 then -1 else 0,
      { compare (recorded s r) with poolList := [], tmpPoolInfoMap := [] },
      some (s.poolList ++ r.pools.map (·.1))) := by
  have hloop : recordLoop r.read s = (true, recorded s r) := by
    rw [recordLoop_eq, (parsed_iff h.1 h.2.1).mp h]
    rfl
  simp only [updatePoolUsage, getPoolStorageUsage, if_neg h.1, h.2.1, hloop, updatePoolList]
  by_cases hccm : r.ccmRet = 0 <;> simp [hccm, compare, recorded]

/-- One that does not: what it has recorded stays. -/
theorem updatePoolUsage_of_not_parsed (h : ¬ r.Parsed) :
    (updatePoolUsage s r).1 ≠ 0 ∧
      ((updatePoolUsage s r).2.1.poolList ≠ [] ↔ s.poolList ≠ [] ∨ r.Leaves) := by
  -- no text, no buffer, or a line that fails: only the last one records anything
  by_cases hmon : r.monRet < 0
  · refine ⟨?_, ?_⟩
    · simp only [updatePoolUsage, if_pos hmon]
      omega
    · simp [updatePoolUsage, hmon, Round.Leaves]
  cases halloc : r.allocated with
  | false => simp [updatePoolUsage, hmon, getPoolStorageUsage, halloc, Round.Leaves, ENOMEM]
  | true =>
    rw [parsed_iff hmon halloc, Bool.not_eq_false] at h
    have hloop : recordLoop r.read s = (false, recorded s r) := by
      rw [recordLoop_eq, h]
      rfl
    have hleaves : r.Leaves ↔ r.pools ≠ [] := by
      rw [List.any_eq_true] at h
      simp only [Round.Leaves, hmon, halloc, h, not_false_eq_true, true_and, and_true]
    have hround : updatePoolUsage s r = (-1, recorded s r, none) := by
      simp [updatePoolUsage, hmon, getPoolStorageUsage, halloc, hloop]
    rw [hleaves, hround]
    refine ⟨by simp, ?_⟩
    show s.poolList ++ r.pools.map (·.1) ≠ [] ↔ _
    rw [ne_eq, List.append_eq_nil_iff, List.map_eq_nil_iff, not_and_or]

/-- A round returns 0 if its text parses and CCM takes the report. -/
theorem updatePoolUsage_ret : (updatePoolUsage s r).1 = 0 ↔ r.Parsed ∧ r.ccmRet = 0 := by
  by_cases h : r.Parsed
  · rw [updatePoolUsage_of_parsed h]
    by_cases hccm : r.ccmRet = 0 <;> simp [h, hccm]
  · exact iff_of_false (updatePoolUsage_of_not_parsed h).1 fun hboth => h hboth.1

/-- **Leftovers.** Pools are waiting behind a round that is not parsed, if there were some or it
leaves some. -/
theorem poolList_ne_nil_iff :
    (updatePoolUsage s r).2.1.poolList ≠ [] ↔ ¬ r.Parsed ∧ (s.poolList ≠ [] ∨ r.Leaves) := by
  by_cases h : r.Parsed
  · rw [updatePoolUsage_of_parsed h]
    simp [h]
  · rw [(updatePoolUsage_of_not_parsed h).2]
    simp [h]

/-- **One round.** It is fresh exactly if no pools were waiting. -/
theorem fresh_iff (h : r.Parsed) (hnd : (r.pools.map (·.1)).Nodup) :
    Fresh r (updatePoolUsage s r).2.1 (updatePoolUsage s r).2.2 ↔ s.poolList = [] := by
  rw [updatePoolUsage_of_parsed h]
  constructor
  · rintro ⟨-, -, l, hl, hperm⟩
    obtain rfl := Option.some.inj hl
    -- the report is the old list with the round's pools behind it
    have hlen := hperm.length_eq
    rw [List.length_append] at hlen
    exact List.length_eq_zero_iff.mp (by omega)
  · intro hnil
    have hlookup : ∀ x, (compare (recorded s r)).poolInfoMap.lookup x =
        if x ∈ r.pools.map (·.1) then some (tmpInfo (recorded s r) x) else none := by
      intro x
      rw [lookup_compare, recorded, hnil, List.nil_append]
    refine ⟨?_, ?_, _, rfl, by rw [hnil, List.nil_append]⟩
    · intro x
      rw [mem_keys_iff_isSome]
      dsimp only
      rw [hlookup]
      split_ifs with hx <;> simp [hx]
    · intro p hp
      dsimp only
      rw [hlookup, if_pos (List.mem_map_of_mem hp), tmpInfo, recorded]
      dsimp only
      rw [lookup_foldl_of_mem hnd _ hp, Option.getD_some]

/-! ## Histories -/

theorem before_succ (rounds : List (Round α)) {n : ℕ} (hr : rounds[n]? = some r) :
    before rounds (n + 1) = (updatePoolUsage (before rounds n) r).2.1 :=
  Interleave.after_succ hr

omit [Inhabited α] in
theorem stale_zero (rounds : List (Round α)) : ¬ Stale rounds 0 := by
  rintro ⟨m, hm, -⟩
  exact absurd hm (Nat.not_lt_zero m)

omit [Inhabited α] in
theorem Round.Leaves.not_parsed (h : r.Leaves) : ¬ r.Parsed := by
  intro hparsed
  obtain ⟨-, -, -, l, hl, hfailed⟩ := h
  rw [hparsed.2.2 l hl] at hfailed
  cases hfailed

omit [Inhabited α] in
theorem stale_succ_of_none {rounds : List (Round α)} {n : ℕ} (hr : rounds[n]? = none) :
    Stale rounds (n + 1) ↔ Stale rounds n := by
  constructor
  · rintro ⟨m, hm, ⟨r, hr', hleaves⟩, hnone⟩
    have hne : m ≠ n := by
      rintro rfl
      rw [hr] at hr'
      cases hr'
    exact ⟨m, by omega, ⟨r, hr', hleaves⟩, fun l hml hln => hnone l hml (by omega)⟩
  · rintro ⟨m, hm, hleaves, hnone⟩
    refine ⟨m, by omega, hleaves, fun l hml hln r hr' => ?_⟩
    rcases Nat.lt_succ_iff_lt_or_eq.mp hln with hln | rfl
    · exact hnone l hml hln r hr'
    · rw [hr] at hr'
      cases hr'

omit [Inhabited α] in
/-- The last round leaves pools itself, or it clears none that were there. -/
theorem stale_succ_iff {rounds : List (Round α)} {n : ℕ} (hr : rounds[n]? = some r) :
    Stale rounds (n + 1) ↔ ¬ r.Parsed ∧ (Stale rounds n ∨ r.Leaves) := by
  constructor
  · rintro ⟨m, hm, ⟨r', hr', hleaves⟩, hnone⟩
    rcases Nat.lt_succ_iff_lt_or_eq.mp hm with hm | rfl
    · refine ⟨hnone n hm (by omega) r hr, .inl ⟨m, hm, ⟨r', hr', hleaves⟩, ?_⟩⟩
      exact fun l hml hln => hnone l hml (by omega)
    · obtain rfl := Option.some.inj (hr.symm.trans hr')
      exact ⟨hleaves.not_parsed, .inr hleaves⟩
  · rintro ⟨hparsed, ⟨m, hm, hleaves, hnone⟩ | hleaves⟩
    · refine ⟨m, by omega, hleaves, fun l hml hln r' hr' => ?_⟩
      rcases Nat.lt_succ_iff_lt_or_eq.mp hln with hln | rfl
      · exact hnone l hml hln r' hr'
      · rwa [← Option.some.inj (hr.symm.trans hr')]
    · exact ⟨n, by omega, ⟨r, hr, hleaves⟩, fun l hml hln => by omega⟩

/-- **Stale pools.** Pools are waiting before a round exactly if some round has left them and no
round since then has been parsed. -/
theorem stale_iff (rounds : List (Round α)) (n : ℕ) :
    (before rounds n).poolList ≠ [] ↔ Stale rounds n := by
  induction n with
  | zero => exact iff_of_false (by simp [before]) (stale_zero rounds)
  | succ n ih =>
    cases hr : rounds[n]? with
    | none => rw [before, Interleave.after_of_none hr, ← before, ih, stale_succ_of_none hr]
    | some r => rw [before_succ rounds hr, poolList_ne_nil_iff, ih, stale_succ_iff hr]

/-- **The refresh.** Every round that returns 0, of a text that lists each pool once, leaves the
map of its own pools and reports them, exactly if no such round comes when an earlier one has
recorded some pools and then failed at a line, with no round between them that was parsed. -/
theorem refresh_fresh_iff (rounds : List (Round α)) :
    (∀ n r, rounds[n]? = some r → (r.pools.map (·.1)).Nodup →
      (updatePoolUsage (before rounds n) r).1 = 0 →
      Fresh r (updatePoolUsage (before rounds n) r).2.1 (updatePoolUsage (before rounds n) r).2.2) ↔
    ∀ n r, rounds[n]? = some r → (r.pools.map (·.1)).Nodup → r.Parsed → r.ccmRet = 0 →
      ¬ Stale rounds n := by
  refine forall₄_congr fun n r _ hnd => ?_
  rw [updatePoolUsage_ret, and_imp]
  refine forall_congr' fun hparsed => forall_congr' fun _ => ?_
  rw [fresh_iff hparsed hnd, ← stale_iff, not_not]

end Round

/-- Pool 1 is recorded, then a line fails; the next round finds pool 2 only. -/
def failedOnce : List (Round ℕ) :=
  [{ monRet := 0, outbl := [97, 10, 98], ccmRet := 0
     lines := fun i _ => if i = 0 then .recorded 1 7 else .failed },
   { monRet := 0, outbl := [99], ccmRet := 0, lines := fun _ _ => .recorded 2 8 }]

/-- The second round returns 0 with pool 1 in the map and in the report. -/
theorem refresh_reports_stale :
    ¬ (∀ n r, failedOnce[n]? = some r → (r.pools.map (·.1)).Nodup →
      (updatePoolUsage (before failedOnce n) r).1 = 0 →
      Fresh r (updatePoolUsage (before failedOnce n) r).2.1
        (updatePoolUsage (before failedOnce n) r).2.2) := by
  intro h
  obtain ⟨-, -, l, hl, hperm⟩ := h 1 _ rfl (by decide) (by decide)
  obtain rfl := Option.some.inj hl
  exact absurd hperm.length_eq (by decide)

end GcAdaptor.PoolUsage
