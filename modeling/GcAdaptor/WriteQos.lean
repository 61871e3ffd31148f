/-
The **pacing of writes** (`server_adaptor/network_module.cpp`): `LimitWriteIops` and
`LimitWriteBw` count what is written in a cycle and put a caller to sleep once the count has
reached the quota of the cycle.

Both read a rate per second when a cycle opens and scale it to the cycle. `LimitWriteBw` keeps
the result in a member; `LimitWriteIops` has it in a local variable, which the later calls of
the cycle fill with the rate itself. For a cycle shorter than a second the rate is divided by
the whole number of cycles in a second, which is too small a divisor where the cycle does not
divide the second.

The two hold different mutexes and share `qosInfo.isGc` only, so each has a run of its own.
`paced_iff` says which runs have one quota a cycle.
-/
import GcAdaptor.Interleave
import GcAdaptor.MsgModule

set_option autoImplicit false

namespace GcAdaptor.WriteQos

open GcAdaptor.Cxx GcAdaptor.MsgModule

/-! ## `ParseQos` -/

structure QosParam where
  limitWrite : UInt32 := 0
  getQuotaCycle : UInt32 := 200
  enableThrottle : UInt32 := 0
  saOpThrottle : UInt64 := 5000

/-- Whether the values read from the configuration are taken. -/
def parseQos (qos : QosParam) : Bool :=
  if qos.getQuotaCycle < 1 then false
  else if qos.saOpThrottle ≠ 0 ∧ (qos.saOpThrottle < 2000 ∨ qos.saOpThrottle > 30000) then false
  else true

/-- `qosParam` of a server that has started. -/
structure Qos where
  qosParam : QosParam
  parsed : parseQos qosParam = true

/-- Milliseconds. -/
def Qos.cycle (q : Qos) : ℕ := q.qosParam.getQuotaCycle.toNat

/-! ## One call -/

def SA_THOUSAND_DEC : ℕ := 1000

/-- The rate per second scaled to the cycle, in words of `bits` bits. -/
def quota (bits cycle rate : ℕ) : ℕ :=
  if cycle < SA_THOUSAND_DEC then rate / (SA_THOUSAND_DEC / cycle)
  else rate * (cycle / SA_THOUSAND_DEC) % 2 ^ bits

/-- Milliseconds between two readings of the clock, in nanoseconds. -/
def millis (start now : ℕ) : ℤ := ((now : ℤ) - start).tdiv 1000000

/-- `unset` is what the variable holds when the clock has gone back. -/
def timeInterval (start now : ℕ) (unset : ℤ) : ℤ :=
  if start ≤ now then millis start now else unset

/-- What the cycle under way was opened with. No member of the class: it says what the calls of
the cycle should compare with. -/
structure Opening where
  rate : ℕ
  limit : ℕ

/-- A comparison of the total with the quota, and the `usleep` after it, in microseconds. -/
structure Compared where
  total : ℕ
  limit : ℕ
  sleep : Option ℕ

/-- `now` is read once more when the total has reached the limit. -/
def compare (cycle start now total limit : ℕ) : Compared :=
  let timeInterval := millis start now
  let iWait := (((cycle : ℤ) - timeInterval) % 2 ^ 32).toNat
  { total := total
    limit := limit
    sleep :=
      if limit ≤ total ∧ timeInterval ≤ cycle ∧ iWait ≠ 0 then some (iWait * SA_THOUSAND_DEC % 2 ^ 32)
      else none }

def isWrite (i : OSDOp) : Bool := i.op.op == .writefull || i.op.op == .write

/-- A call and what it reads on its way. `passes` are the readings of the rate in the loop, one
for each pass, `opened` is the clock when the loop is left, `last` the clock at the end. -/
structure Call (ρ : Type) where
  ops : List OSDOp
  now : ℕ
  unset : ℤ := 0
  passes : List ρ
  opened : ℕ
  last : ℕ

structure IopsCall extends Call UInt64 where
  isGc : UInt32
  /-- `GetWriteIopsThrottle` before the loop -/
  limitIops : UInt64

structure IopsState where
  iopsCycleBegin : ℕ
  periodIops : ℕ := 0
  opened : Option Opening := none

structure BwState where
  cycleBegin : ℕ
  periodBW : ℕ := 0
  wcacheBW : ℕ := 2 ^ 64 - 1
  opened : Option Opening := none

section Calls

variable (q : Qos)

/-- A pass that finds the quota 0 sleeps and tries again. Without another one the call has not
left the loop, and compares nothing. -/
def limitWriteIops (s : IopsState) (c : IopsCall) : IopsState × Option Compared :=
  if c.isGc = 0 then (s, none)
  else if timeInterval s.iopsCycleBegin c.now c.unset ≥ q.cycle then
    match c.passes.find? fun r => quota 64 q.cycle r.toNat ≠ 0 with
    | none => (s, none)
    | some r =>
      -- only this call has the quota: `limitIops` is a local variable
      let limitIops := quota 64 q.cycle r.toNat
      let periodIops := add64 0 (c.ops.countP isWrite)
      ({ iopsCycleBegin := c.opened
         periodIops := periodIops
         opened := some { rate := r.toNat, limit := limitIops } },
        some (compare q.cycle c.opened c.last periodIops limitIops))
  else
    -- what was read before the loop, per second
    let periodIops := add64 s.periodIops (c.ops.countP isWrite)
    ({ s with periodIops := periodIops },
      some (compare q.cycle s.iopsCycleBegin c.last periodIops c.limitIops.toNat))

/-- Kilobytes. -/
def writeLength (ops : List OSDOp) : ℕ :=
  ((ops.filter isWrite).map fun i => i.op.extentLength.toNat / 1024).sum

/-- A pass reads `qosInfo.writeRatio`; here it is the rate that must not be 0. -/
def limitWriteBw (s : BwState) (c : Call UInt32) : BwState × Option Compared :=
  if timeInterval s.cycleBegin c.now c.unset ≥ q.cycle then
    match c.passes.find? fun r => r ≠ 0 with
    | none => (s, none)
    | some writeRatio =>
      let wcacheBW := quota 32 q.cycle writeRatio.toNat
      let periodBW := add64 0 (writeLength c.ops)
      ({ cycleBegin := c.opened
         periodBW := periodBW
         wcacheBW := wcacheBW
         opened := some { rate := writeRatio.toNat, limit := wcacheBW } },
        some (compare q.cycle c.opened c.last periodBW wcacheBW))
  else
    let periodBW := add64 s.periodBW (writeLength c.ops)
    ({ s with periodBW := periodBW },
      some (compare q.cycle s.cycleBegin c.last periodBW s.wcacheBW))

end Calls

/-- The comparison is with the quota of the cycle, which is not above the rate. -/
def Paced (cycle : ℕ) (compared : Option Compared) (opened : Option Opening) : Prop :=
  ∀ e ∈ compared, ∀ o ∈ opened, e.limit = o.limit ∧ o.limit * SA_THOUSAND_DEC ≤ o.rate * cycle

/-! ## The quota -/

/-- The rate keeps, beyond what is divided, as much as the divisor falls short of the number of
cycles in a second. -/
def WithinRate (cycle rate : ℕ) : Prop :=
  SA_THOUSAND_DEC ≤ cycle ∨
    rate / (SA_THOUSAND_DEC / cycle) * (SA_THOUSAND_DEC % cycle) ≤
      rate % (SA_THOUSAND_DEC / cycle) * cycle

section Quota

variable {cycle rate : ℕ}

/-- **The quota.** It is too large only for a cycle that does not divide the second. -/
theorem quota_le_iff (bits : ℕ) :
    quota bits cycle rate * SA_THOUSAND_DEC ≤ rate * cycle ↔ WithinRate cycle rate := by
  rw [quota, WithinRate]
  split_ifs with hcycle
  · set d := SA_THOUSAND_DEC / cycle with hd
    set m := SA_THOUSAND_DEC % cycle with hm
    have hsecond : SA_THOUSAND_DEC = cycle * d + m := (Nat.div_add_mod ..).symm
    have hrate : rate = d * (rate / d) + rate % d := (Nat.div_add_mod ..).symm
    have hleft : rate / d * SA_THOUSAND_DEC = rate / d * (cycle * d) + rate / d * m := by
      rw [hsecond, Nat.mul_add]
    have hright : rate * cycle = rate / d * (cycle * d) + rate % d * cycle := by
      conv_lhs => rw [hrate]
      ring
    rw [hleft, hright, Nat.add_le_add_iff_left]
    constructor
    · exact .inr
    · exact fun h => h.resolve_left (by omega)
  · refine iff_of_true ?_ (.inl (by omega))
    calc
      rate * (cycle / SA_THOUSAND_DEC) % 2 ^ bits * SA_THOUSAND_DEC
      _ ≤ rate * (cycle / SA_THOUSAND_DEC) * SA_THOUSAND_DEC :=
        Nat.mul_le_mul_right _ (Nat.mod_le ..)
      _ = rate * (cycle / SA_THOUSAND_DEC * SA_THOUSAND_DEC) := Nat.mul_assoc ..
      _ ≤ rate * cycle := Nat.mul_le_mul_left _ (Nat.div_mul_le_self ..)

/-- As with the default of 200 ms. -/
theorem withinRate_of_dvd (h : cycle ∣ SA_THOUSAND_DEC) : WithinRate cycle rate := by
  refine .inr ?_
  rw [Nat.mod_eq_zero_of_dvd h, Nat.mul_zero]
  exact Nat.zero_le _

end Quota

theorem Qos.cycle_pos (q : Qos) : 0 < q.cycle := by
  have h := q.parsed
  rw [parseQos] at h
  split_ifs at h with hcycle
  rw [UInt32.not_lt] at hcycle
  exact UInt32.le_iff_toNat_le.mp hcycle

/-- No division by 0. -/
theorem Qos.divisor_pos (q : Qos) (h : q.cycle < SA_THOUSAND_DEC) :
    0 < SA_THOUSAND_DEC / q.cycle :=
  Nat.div_pos h.le q.cycle_pos

/-! ## Which runs are paced -/

section Runs

variable (q : Qos)

/-- A call that opens a cycle reads a rate the quota of which is not above it; a later one reads
what the cycle was opened with as its quota. -/
def IopsFits (s : IopsState) (c : IopsCall) : Prop :=
  c.isGc ≠ 0 →
    if timeInterval s.iopsCycleBegin c.now c.unset ≥ q.cycle then
      ∀ r ∈ c.passes.find? (fun r => quota 64 q.cycle r.toNat ≠ 0), WithinRate q.cycle r.toNat
    else ∀ o ∈ s.opened, c.limitIops.toNat = quota 64 q.cycle o.rate

/-- Only the calls that open a cycle matter. -/
def BwFits (s : BwState) (c : Call UInt32) : Prop :=
  timeInterval s.cycleBegin c.now c.unset ≥ q.cycle →
    ∀ w ∈ c.passes.find? (fun w => w ≠ 0), WithinRate q.cycle w.toNat

/-- The cycle under way was opened with the quota of its rate, and that is not too large. -/
def Opened (bits : ℕ) (opened : Option Opening) : Prop :=
  ∀ o ∈ opened, o.limit = quota bits q.cycle o.rate ∧ WithinRate q.cycle o.rate

variable {q} {bits : ℕ}

theorem Opened.within {opened : Option Opening} {o : Opening} (h : Opened q bits opened)
    (ho : o ∈ opened) : o.limit * SA_THOUSAND_DEC ≤ o.rate * q.cycle := by
  rw [(h o ho).1]
  exact (quota_le_iff bits).mpr (h o ho).2

theorem opened_some {rate : ℕ} (h : WithinRate q.cycle rate) :
    Opened q bits (some { rate := rate, limit := quota bits q.cycle rate }) := by
  rintro o ⟨⟩
  exact ⟨rfl, h⟩

/-- The comparison of a call that opens a cycle. -/
theorem paced_opening {rate start last total : ℕ} :
    Paced q.cycle (some (compare q.cycle start last total (quota bits q.cycle rate)))
      (some { rate := rate, limit := quota bits q.cycle rate }) ↔ WithinRate q.cycle rate := by
  rw [← quota_le_iff bits]
  constructor
  · intro h
    exact (h _ rfl _ rfl).2
  · rintro h e ⟨⟩ o ⟨⟩
    exact ⟨rfl, h⟩

/-! `LimitWriteIops`. -/

theorem iops_opened (s : IopsState) (c : IopsCall) (hs : Opened q 64 s.opened)
    (hfits : IopsFits q s c) : Opened q 64 (limitWriteIops q s c).1.opened := by
  rw [limitWriteIops]
  split_ifs with hgc hcycle
  · exact hs
  · rw [IopsFits, if_pos hcycle] at hfits
    cases hpass : c.passes.find? fun r => quota 64 q.cycle r.toNat ≠ 0 with
    | none => exact hs
    | some r => exact opened_some (hfits hgc r hpass)
  · exact hs

theorem iops_paced_iff (s : IopsState) (c : IopsCall) (hs : Opened q 64 s.opened) :
    Paced q.cycle (limitWriteIops q s c).2 (limitWriteIops q s c).1.opened ↔ IopsFits q s c := by
  by_cases hgc : c.isGc = 0
  · refine iff_of_true ?_ fun h => absurd hgc h
    rw [limitWriteIops, if_pos hgc]
    rintro e ⟨⟩
  by_cases hcycle : timeInterval s.iopsCycleBegin c.now c.unset ≥ q.cycle
  · rw [IopsFits, limitWriteIops, forall_prop_of_true hgc, if_neg hgc, if_pos hcycle, if_pos hcycle]
    cases hpass : c.passes.find? fun r => quota 64 q.cycle r.toNat ≠ 0 with
    | none => exact iff_of_true (by rintro e ⟨⟩) (by rintro r ⟨⟩)
    | some r =>
      refine paced_opening.trans ⟨?_, fun h => h r rfl⟩
      rintro h r' ⟨⟩
      exact h
  · rw [IopsFits, limitWriteIops, forall_prop_of_true hgc, if_neg hgc, if_neg hcycle,
      if_neg hcycle]
    -- the later calls compare with what they have read themselves
    constructor
    · intro h o ho
      rw [← (hs o ho).1]
      exact (h _ rfl o ho).1
    · rintro h e ⟨⟩ o ho
      exact ⟨(h o ho).trans (hs o ho).1.symm, hs.within ho⟩

/-! `LimitWriteBw`. -/

/-- The member holds the quota of the cycle. -/
structure BwOpened (q : Qos) (s : BwState) : Prop where
  opened : Opened q 32 s.opened
  kept : ∀ o ∈ s.opened, s.wcacheBW = o.limit

theorem bw_opened (s : BwState) (c : Call UInt32) (hs : BwOpened q s) (hfits : BwFits q s c) :
    BwOpened q (limitWriteBw q s c).1 := by
  rw [limitWriteBw]
  split_ifs with hcycle
  · cases hpass : c.passes.find? fun w => w ≠ 0 with
    | none => exact hs
    | some w =>
      refine ⟨opened_some (hfits hcycle w hpass), ?_⟩
      rintro o ⟨⟩
      rfl
  · exact ⟨hs.opened, hs.kept⟩

theorem bw_paced_iff (s : BwState) (c : Call UInt32) (hs : BwOpened q s) :
    Paced q.cycle (limitWriteBw q s c).2 (limitWriteBw q s c).1.opened ↔ BwFits q s c := by
  rw [limitWriteBw, BwFits]
  split_ifs with hcycle
  · rw [forall_prop_of_true hcycle]
    cases hpass : c.passes.find? fun w => w ≠ 0 with
    | none => exact iff_of_true (by rintro e ⟨⟩) (by rintro w ⟨⟩)
    | some w =>
      refine paced_opening.trans ⟨?_, fun h => h w rfl⟩
      rintro h w' ⟨⟩
      exact h
  · -- a later call compares with the member
    refine iff_of_true ?_ fun h => absurd h hcycle
    rintro e ⟨⟩ o ho
    exact ⟨hs.kept o ho, hs.opened.within ho⟩

end Runs

section Main

variable (q : Qos)

/-- `LimitWriteIops` after `n` calls of a server whose cycle was set to begin at `start`. -/
def iopsAfter (start : ℕ) (calls : List IopsCall) (n : ℕ) : IopsState :=
  Interleave.after (fun s c => (limitWriteIops q s c).1) { iopsCycleBegin := start } calls n

def bwAfter (start : ℕ) (calls : List (Call UInt32)) (n : ℕ) : BwState :=
  Interleave.after (fun s c => (limitWriteBw q s c).1) { cycleBegin := start } calls n

/-- Every call compares with the one quota of its cycle. -/
def AllPaced (start : ℕ) (iops : List IopsCall) (bw : List (Call UInt32)) : Prop :=
  (∀ n c, iops[n]? = some c →
    Paced q.cycle (limitWriteIops q (iopsAfter q start iops n) c).2
      (limitWriteIops q (iopsAfter q start iops n) c).1.opened) ∧
  ∀ n c, bw[n]? = some c →
    Paced q.cycle (limitWriteBw q (bwAfter q start bw n) c).2
      (limitWriteBw q (bwAfter q start bw n) c).1.opened

/-- **Pacing.** One quota a cycle, and not above the rate: exactly if each cycle is opened with a
rate that its quota is not above, and each later call of `LimitWriteIops` reads the quota of its
cycle for a rate. -/
theorem paced_iff (start : ℕ) (iops : List IopsCall) (bw : List (Call UInt32)) :
    AllPaced q start iops bw ↔
      (∀ n c, iops[n]? = some c → IopsFits q (iopsAfter q start iops n) c) ∧
        ∀ n c, bw[n]? = some c → BwFits q (bwAfter q start bw n) c := by
  refine and_congr ?_ ?_
  · refine Interleave.after_forall_iff (I := fun s : IopsState => Opened q 64 s.opened) ?_
      iops_opened iops_paced_iff
    rintro o ⟨⟩
  · refine Interleave.after_forall_iff (I := BwOpened q) ⟨?_, ?_⟩ bw_opened bw_paced_iff
    · rintro o ⟨⟩
    · rintro o ⟨⟩

end Main

/-- A cycle of 200 ms and a rate of 1000: the first call of a cycle compares with 200, the second
one with 1000. With 600 ms even the first one compares with 1000, which is more than 600. -/
theorem not_paced :
    (¬ AllPaced ⟨{ getQuotaCycle := 200 }, by decide⟩ 0
      [{ ops := [], now := 300000000, passes := [1000], opened := 300000000, last := 300000000
         isGc := 1, limitIops := 1000 },
       { ops := [], now := 310000000, passes := [], opened := 0, last := 310000000
         isGc := 1, limitIops := 1000 }] []) ∧
    ¬ AllPaced ⟨{ getQuotaCycle := 600 }, by decide⟩ 0 []
      [{ ops := [], now := 600000000, passes := [1000], opened := 600000000, last := 600000000 }] := by
  constructor
  · intro h
    exact absurd (h.1 1 _ rfl _ rfl _ rfl).1 (by decide)
  · intro h
    exact absurd (h.2 0 _ rfl _ rfl _ rfl).2 (by decide)

end GcAdaptor.WriteQos
