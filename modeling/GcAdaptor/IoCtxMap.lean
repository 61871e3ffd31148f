/-
The **contexts of the clients** (`ceph_proxy/CephProxy.cc`): `GetIoCtxWithClient` keeps, for
every pool that was asked for, one context of each client, and `ClearIoctx` releases them.

Contexts are numbered in the order in which they are created, so the books can be kept as a
permutation: what the table holds and what has been released are together the numbers given out
so far, each once. Both functions hold the mutex from start to end, so a run is a list of calls.

A creation that fails makes the call give up what it has created for the clients before.
`ioCtxMap_good_iff` says that this is the only way the table goes wrong.
-/
import GcAdaptor.Interleave
import GcAdaptor.CephProxy

set_option autoImplicit false

namespace GcAdaptor.IoCtxMap

open GcAdaptor.Cxx GcAdaptor.CephProxy

/-! ## The table -/

/-- The clients after `RadosInit`. -/
structure Clients where
  ioClientVec : List ℕ
  vecMask : UInt32
  nodup : ioClientVec.Nodup
  inBounds : ∀ cnt, clientIndex vecMask cnt < ioClientVec.length

/-- Context `i` is the one entry `i` of `created` is about: its client and its pool. -/
structure State where
  count : UInt32
  pMap : List (ℤ × List (ℕ × ℕ)) := []
  created : List (ℕ × ℤ) := []
  released : List ℕ := []

/-- The loop over the clients; `ok i` is whether creation `i` of the call succeeds. -/
def createLoop (ok : ℕ → Bool) (poolId : ℤ) :
    List ℕ → ℕ → List (ℕ × ℤ) → List (ℕ × ℕ) → Bool × List (ℕ × ℤ) × List (ℕ × ℕ)
  | [], _, created, tMap => (true, created, tMap)
  | c :: rest, i, created, tMap =>
    if ok i then
      createLoop ok poolId rest (i + 1) (created ++ [(c, poolId)]) (mapSet c created.length tMap)
    else (false, created, tMap)

section Calls

variable (clients : Clients)

/-- The client a call gets. -/
def clientOf (s : State) : ℕ :=
  clients.ioClientVec.get ⟨clientIndex clients.vecMask s.count, clients.inBounds s.count⟩

/-- The context that is returned, `none` for null, and the state afterwards. -/
def getIoCtxWithClient (s : State) (poolId : ℤ) (ok : ℕ → Bool) : Option ℕ × State :=
  let client := clientOf clients s
  let s := { s with count := s.count + 1 }
  match s.pMap.lookup poolId with
  | none =>
    match createLoop ok poolId clients.ioClientVec 0 s.created [] with
    -- what is in `tMap` by now is dropped with it
    | (false, created, _) => (none, { s with created := created })
    | (true, created, tMap) =>
      (tMap.lookup client, { s with created := created, pMap := mapSet poolId tMap s.pMap })
  | some tMap => (tMap.lookup client, s)

/-- The contexts in the table. -/
def State.held (s : State) : List ℕ := s.pMap.flatMap fun p => p.2.map (·.2)

def clearIoctx (s : State) : State :=
  { s with released := s.released ++ s.held, pMap := [] }

inductive Act
  | get (poolId : ℤ) (ok : ℕ → Bool)
  | clear

def step (s : State) : Act → State
  | .get poolId ok => (getIoCtxWithClient clients s poolId ok).2
  | .clear => clearIoctx s

/-- The state after the first `n` calls. -/
def after (count : UInt32) (acts : List Act) (n : ℕ) : State :=
  Interleave.after (step clients) { count := count } acts n

/-! ## What the table should be -/

/-- Every pool in the table has exactly one context for each client, made by it for that
pool. -/
def Complete (s : State) : Prop :=
  ∀ p ∈ s.pMap, (p.2.map (·.1)).Perm clients.ioClientVec ∧
    ∀ e ∈ p.2, s.created[e.2]? = some (e.1, p.1)

/-- What has been created is in the table or has been released, and once. -/
def Accounted (s : State) : Prop :=
  (s.held ++ s.released).Perm (List.range s.created.length)

/-- The pool is known, or can be made. -/
def Succeeds (s : State) (poolId : ℤ) (ok : ℕ → Bool) : Prop :=
  (s.pMap.lookup poolId).isSome ∨ ∀ i < clients.ioClientVec.length, ok i = true

/-- A call that succeeds returns a context of its client and pool, and one that fails returns
null and leaves the table. -/
def Answers (s : State) : Prop :=
  ∀ poolId ok,
    (Succeeds clients s poolId ok → ∃ i, (getIoCtxWithClient clients s poolId ok).1 = some i ∧
      (getIoCtxWithClient clients s poolId ok).2.created[i]? =
        some (clientOf clients s, poolId)) ∧
    (¬ Succeeds clients s poolId ok → (getIoCtxWithClient clients s poolId ok).1 = none ∧
      (getIoCtxWithClient clients s poolId ok).2.pMap = s.pMap)

structure Good (s : State) : Prop where
  complete : Complete clients s
  answers : Answers clients s
  accounted : Accounted s

/-- No creation fails after another one of the same call. -/
def DropsNothing (s : State) : Act → Prop
  | .get poolId ok => Succeeds clients s poolId ok ∨ ok 0 = false
  | .clear => True

end Calls

/-! ## The loop over the clients -/

section Loop

variable (ok : ℕ → Bool) (poolId : ℤ) (cs : List ℕ) (i : ℕ)

/-- All creations succeed. -/
theorem createLoop_of_ok (h : ∀ j < cs.length, ok (i + j) = true) (created : List (ℕ × ℤ))
    (kvs : List (ℕ × ℕ)) :
    createLoop ok poolId cs i created (mapOf kvs) =
      (true, created ++ cs.map (·, poolId), mapOf (kvs ++ cs.zipIdx created.length)) := by
  induction cs generalizing i created kvs with
  | nil => simp [createLoop]
  | cons c cs ih =>
    have hfirst : ok i = true := h 0 (by simp)
    have hrest : ∀ j < cs.length, ok (i + 1 + j) = true := by
      intro j hj
      rw [Nat.add_assoc, Nat.add_comm 1 j]
      exact h (j + 1) (by simpa using hj)
    rw [createLoop, if_pos hfirst, ← mapOf_append (c, created.length), ih (i + 1) hrest]
    simp [List.zipIdx_cons]

/-- Creation `j` is the first one to fail. -/
theorem createLoop_of_fail {j : ℕ} (hj : j < cs.length) (hfail : ok (i + j) = false)
    (hbefore : ∀ l < j, ok (i + l) = true) (created : List (ℕ × ℤ)) (tMap : List (ℕ × ℕ)) :
    ∃ tMap', createLoop ok poolId cs i created tMap =
      (false, created ++ (cs.take j).map (·, poolId), tMap') := by
  induction cs generalizing i j created tMap with
  | nil => simp at hj
  | cons c cs ih =>
    cases j with
    | zero =>
      rw [createLoop, if_neg (by simpa using hfail)]
      exact ⟨tMap, by simp⟩
    | succ j =>
      have hfirst : ok i = true := hbefore 0 (by omega)
      rw [createLoop, if_pos hfirst]
      obtain ⟨tMap', h⟩ := ih (i + 1) (j := j) (by simpa using hj)
        (by rw [← hfail]; congr 1; omega)
        (fun l hl => by rw [← hbefore (l + 1) (by omega)]; congr 1; omega)
        (created ++ [(c, poolId)]) (mapSet c created.length tMap)
      exact ⟨tMap', by rw [h]; simp⟩

/-- Otherwise some creation is the first one to fail. -/
theorem exists_first_fail (h : ¬ ∀ j < cs.length, ok j = true) :
    ∃ j < cs.length, ok j = false ∧ ∀ l < j, ok l = true := by
  have hex : ∃ j, j < cs.length ∧ ok j = false := by
    simpa using h
  refine ⟨Nat.find hex, (Nat.find_spec hex).1, (Nat.find_spec hex).2, ?_⟩
  intro l hl
  have hnot := Nat.find_min hex hl
  rw [not_and, Bool.not_eq_false] at hnot
  exact hnot (hl.trans (Nat.find_spec hex).1)

end Loop

/-! ## One call -/

section Step

variable {clients : Clients} {s : State} {poolId : ℤ} {ok : ℕ → Bool} {a : Act}

/-- The contexts a call that finds no pool makes, by client. -/
def newTMap (clients : Clients) (s : State) : List (ℕ × ℕ) :=
  mapOf (clients.ioClientVec.zipIdx s.created.length)

theorem newTMap_perm (clients : Clients) (s : State) :
    (newTMap clients s).Perm (clients.ioClientVec.zipIdx s.created.length) := by
  refine mapOf_perm ?_
  rw [List.zipIdx_map_fst]
  exact clients.nodup

theorem get_of_known {tMap : List (ℕ × ℕ)} (h : s.pMap.lookup poolId = some tMap) :
    getIoCtxWithClient clients s poolId ok =
      (tMap.lookup (clientOf clients s), { s with count := s.count + 1 }) := by
  simp only [getIoCtxWithClient, h]

theorem get_of_new (h : s.pMap.lookup poolId = none)
    (hok : ∀ i < clients.ioClientVec.length, ok i = true) :
    getIoCtxWithClient clients s poolId ok =
      ((newTMap clients s).lookup (clientOf clients s),
        { s with
          count := s.count + 1
          created := s.created ++ clients.ioClientVec.map (·, poolId)
          pMap := mapSet poolId (newTMap clients s) s.pMap }) := by
  have hloop := createLoop_of_ok ok poolId clients.ioClientVec 0 (by simpa using hok) s.created []
  rw [List.nil_append, show mapOf ([] : List (ℕ × ℕ)) = [] from rfl] at hloop
  simp only [getIoCtxWithClient, h, hloop]
  rfl

/-- What has been created before the first failure is in no table. -/
theorem get_of_fail (h : ¬ Succeeds clients s poolId ok) :
    ∃ j < clients.ioClientVec.length, ok j = false ∧ (∀ l < j, ok l = true) ∧
      getIoCtxWithClient clients s poolId ok =
        (none, { s with
          count := s.count + 1
          created := s.created ++ (clients.ioClientVec.take j).map (·, poolId) }) := by
  rw [Succeeds, not_or, Option.isSome_iff_ne_none, not_not] at h
  obtain ⟨hnone, hnot⟩ := h
  obtain ⟨j, hj, hfail, hbefore⟩ := exists_first_fail ok clients.ioClientVec hnot
  obtain ⟨tMap', hloop⟩ := createLoop_of_fail ok poolId clients.ioClientVec 0 hj
    (by simpa using hfail) (by simpa using hbefore) s.created []
  refine ⟨j, hj, hfail, hbefore, ?_⟩
  simp only [getIoCtxWithClient, hnone, hloop]

/-- The contexts of a new pool are the next numbers. -/
theorem created_of_mem_newTMap {e : ℕ × ℕ} (he : e ∈ newTMap clients s) :
    (s.created ++ clients.ioClientVec.map (·, poolId))[e.2]? = some (e.1, poolId) := by
  have hmem := (newTMap_perm clients s).mem_iff.mp he
  rw [List.mem_zipIdx_iff_le_and_getElem?_sub] at hmem
  rw [List.getElem?_append_right hmem.1, List.getElem?_map, hmem.2]
  rfl

theorem Complete.congr {created : List (ℕ × ℤ)} {count : UInt32} (h : Complete clients s) :
    Complete clients { s with count := count, created := s.created ++ created } := by
  intro p hp
  exact ⟨(h p hp).1, fun e he => Interleave.getElem?_append_of_some ((h p hp).2 e he)⟩

theorem Complete.step (h : Complete clients s) : Complete clients (step clients s a) := by
  cases a with
  | clear =>
    intro p hp
    cases hp
  | get poolId ok =>
    rw [IoCtxMap.step]
    by_cases hsucc : Succeeds clients s poolId ok
    · cases hpool : s.pMap.lookup poolId with
      | some tMap =>
        rw [get_of_known hpool]
        exact h
      | none =>
        have hok : ∀ i < clients.ioClientVec.length, ok i = true := by
          simpa [Succeeds, hpool] using hsucc
        rw [get_of_new hpool hok]
        intro p hp
        rcases List.mem_cons.mp ((mapSet_perm (not_mem_keys_of_lookup hpool)).mem_iff.mp hp) with rfl | hp
        · refine ⟨?_, fun e he => created_of_mem_newTMap he⟩
          have hperm := (newTMap_perm clients s).map (·.1)
          rwa [List.zipIdx_map_fst] at hperm
        · exact ⟨(h p hp).1, fun e he => Interleave.getElem?_append_of_some ((h p hp).2 e he)⟩
    · obtain ⟨j, -, -, -, hget⟩ := get_of_fail hsucc
      rw [hget]
      exact h.congr

theorem clientOf_mem (clients : Clients) (s : State) :
    clientOf clients s ∈ clients.ioClientVec :=
  List.get_mem _ _

/-- A table with a context of every client has one of the client whose turn it is. -/
theorem lookup_clientOf {tMap : List (ℕ × ℕ)} {created : List (ℕ × ℤ)}
    (hkeys : (tMap.map (·.1)).Perm clients.ioClientVec)
    (hmade : ∀ e ∈ tMap, created[e.2]? = some (e.1, poolId)) :
    ∃ i, tMap.lookup (clientOf clients s) = some i ∧
      created[i]? = some (clientOf clients s, poolId) := by
  have hmem := hkeys.mem_iff.mpr (clientOf_mem clients s)
  obtain ⟨i, hi⟩ := exists_lookup_of_mem_keys hmem
  exact ⟨i, hi, hmade _ (mem_of_lookup hi)⟩

/-- **Answers.** Neither the failures before nor the leaks touch what a call returns. -/
theorem Complete.answers (h : Complete clients s) : Answers clients s := by
  intro poolId ok
  constructor
  · intro hsucc
    cases hpool : s.pMap.lookup poolId with
    | some tMap =>
      have htMap := h _ (mem_of_lookup hpool)
      rw [get_of_known hpool]
      exact lookup_clientOf htMap.1 htMap.2
    | none =>
      have hok : ∀ i < clients.ioClientVec.length, ok i = true := by
        simpa [Succeeds, hpool] using hsucc
      have hkeys := (newTMap_perm clients s).map (·.1)
      rw [List.zipIdx_map_fst] at hkeys
      rw [get_of_new hpool hok]
      exact lookup_clientOf hkeys fun e he => created_of_mem_newTMap he
  · intro hfail
    obtain ⟨j, -, -, -, hget⟩ := get_of_fail hfail
    rw [hget]
    exact ⟨rfl, rfl⟩

/-! The books. -/

/-- A call that succeeds keeps what it creates. -/
theorem Accounted.get (h : Accounted s) (hsucc : Succeeds clients s poolId ok) :
    Accounted (getIoCtxWithClient clients s poolId ok).2 := by
  cases hpool : s.pMap.lookup poolId with
  | some tMap =>
    rw [get_of_known hpool]
    exact h
  | none =>
    have hok : ∀ i < clients.ioClientVec.length, ok i = true := by
      simpa [Succeeds, hpool] using hsucc
    rw [get_of_new hpool hok]
    -- the new contexts are the next numbers
    have hnew : ((newTMap clients s).map (·.2)).Perm
        ((List.range clients.ioClientVec.length).map (s.created.length + ·)) := by
      rw [← List.range'_eq_map_range, ← List.zipIdx_map_snd]
      exact (newTMap_perm clients s).map (·.2)
    have hheld := (mapSet_perm (v := newTMap clients s)
      (not_mem_keys_of_lookup hpool)).flatMap_right (fun p => p.2.map (·.2))
    rw [List.flatMap_cons] at hheld
    show List.Perm (_ ++ s.released) _
    rw [List.length_append, List.length_map, List.range_add]
    have hbooks := hheld.append_right s.released
    rw [List.append_assoc] at hbooks
    exact hbooks.trans ((hnew.append h).trans List.perm_append_comm)

theorem Accounted.step (h : Accounted s) (hdrops : DropsNothing clients s a) :
    Accounted (step clients s a) := by
  cases a with
  | clear =>
    -- what the table held goes behind what had been released
    show List.Perm ([] ++ (s.released ++ s.held)) _
    rw [List.nil_append]
    exact List.perm_append_comm.trans h
  | get poolId ok =>
    by_cases hsucc : Succeeds clients s poolId ok
    · exact h.get hsucc
    · have hfirst : ok 0 = false := hdrops.resolve_left hsucc
      obtain ⟨j, -, -, hbefore, hget⟩ := get_of_fail hsucc
      have hj : j = 0 := by
        by_contra hne
        simpa [hfirst] using hbefore 0 (by omega)
      rw [IoCtxMap.step, hget, hj, List.take_zero, List.map_nil, List.append_nil]
      exact h

/-- The contexts created before the failure are in no table and are not released. -/
theorem not_accounted (h : Accounted s) (hdrops : ¬ DropsNothing clients s a) :
    ¬ Accounted (step clients s a) := by
  cases a with
  | clear => exact absurd trivial hdrops
  | get poolId ok =>
    rw [DropsNothing, not_or, Bool.not_eq_false] at hdrops
    obtain ⟨hsucc, hfirst⟩ := hdrops
    obtain ⟨j, hj, hfail, -, hget⟩ := get_of_fail hsucc
    have hpos : j ≠ 0 := by
      rintro rfl
      simp [hfirst] at hfail
    rw [IoCtxMap.step, hget]
    intro hafter
    have hlen := h.length_eq
    have hlen' : (s.held ++ s.released).length =
        (List.range (s.created ++ (clients.ioClientVec.take j).map (·, poolId)).length).length :=
      hafter.length_eq
    simp only [List.length_append, List.length_range, List.length_map, List.length_take] at hlen hlen'
    omega

end Step

/-! ## Whole runs -/

section Run

variable (clients : Clients) (count : UInt32) (acts : List Act)

/-- The tables are complete whatever fails. -/
theorem complete_after (n : ℕ) : Complete clients (after clients count acts n) := by
  refine Interleave.after_invariant Interleave.Free ?_ (fun s a hs _ => hs.step)
    (fun _ _ _ => trivial) n
  intro p hp
  cases hp

/-- **The table of contexts.** It is complete, its contexts are what the calls return, and none
is lost, in every state of a run, exactly if in the run no creation fails after another one of
the same call. -/
theorem ioCtxMap_good_iff :
    (∀ n, Good clients (after clients count acts n)) ↔
      ∀ n a, acts[n]? = some a → DropsNothing clients (after clients count acts n) a := by
  constructor
  · intro h n a ha
    by_contra hdrops
    have hnext : after clients count acts (n + 1) = step clients (after clients count acts n) a :=
      Interleave.after_succ ha
    refine not_accounted (h n).accounted hdrops ?_
    rw [← hnext]
    exact (h (n + 1)).accounted
  · intro h n
    have hcomplete := complete_after clients count acts n
    have haccounted : Accounted (after clients count acts n) :=
      Interleave.after_invariant (DropsNothing clients) (.refl _) (fun s a hs ha => hs.step ha) h n
    exact ⟨hcomplete, hcomplete.answers, haccounted⟩

end Run

/-- The clients of a proxy that is started once, with a number the rounding is defined for. -/
def clientsOfInit {shifted32 radosCtxNum : UInt32} {init : ℕ → Option ℕ} {vec : List ℕ}
    (hnum : 1 ≤ radosCtxNum.toNat ∧ radosCtxNum.toNat ≤ 2 ^ 31)
    (hinit : radosInit init (memberInit shifted32 radosCtxNum).clientNum [] = (true, vec))
    (hnodup : vec.Nodup) : Clients where
  ioClientVec := vec
  vecMask := (memberInit shifted32 radosCtxNum).vecMask
  nodup := hnodup
  inBounds := by
    obtain ⟨k, hk, -⟩ := @u32AlignUp_of_le shifted32 radosCtxNum hnum.1 hnum.2
    intro cnt
    rw [radosInit_length hinit]
    show clientIndex (u32AlignUp shifted32 radosCtxNum - 1) cnt < _
    rw [clientIndex_eq hk, List.length_nil, Nat.zero_add]
    exact Nat.mod_lt _ (hk ▸ Nat.two_pow_pos k)

def twoClients : Clients where
  ioClientVec := [1, 2]
  vecMask := 1
  nodup := by decide
  inBounds cnt := by
    have h := @clientIndex_eq 1 2 rfl cnt
    rw [show (2 : UInt32) - 1 = 1 from rfl] at h
    rw [h]
    exact Nat.mod_lt _ (by decide)

/-- The second of two clients fails: the context of the first one is lost. -/
theorem ioCtxMap_loses_context :
    ¬ ∀ n, Good twoClients (after twoClients 0 [.get 5 fun i => i == 0] n) := by
  intro h
  have hbooks := (h 1).accounted.length_eq
  exact absurd hbooks (by decide)

end GcAdaptor.IoCtxMap
