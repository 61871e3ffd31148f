/-
Admission control: the six counters of `NetworkModule`
(`server_adaptor/network_module.cpp`, `Get*Cas`, `Put*Cas` and their callers).

A worker takes a request through `ProcessOpReq`, charges the counters of
`admission` one after another, waits out a running copyup and hands the request
to the cache core. Any time later a completion thread runs `FinishCacheOps`,
which releases the counters of `release`. A request whose `rbd_data` name is
rejected goes through `FinishCacheOps` too, from the worker and before any
charge. Every load, test and compare-and-swap of the `Get*` and `Put*` functions
is one step; a label says who moves, so a run is an arbitrary interleaving.

Each counter is an instance of `CasCounter`: `State.proj` forgets the other five,
and `step_move` is the simulation. What follows from it is in `Admission.lean`, three
invariants with the runs that break them: `lwtCount` counts the requests in flight unless a rejected
name releases what it never charged; no counter is held up by its waiters alone
as long as all workers together fit under the limit; the five throttled counters
come back to zero as long as a throttle is only switched on or off at rest.
-/
import GcAdaptor.CasCounter
import GcAdaptor.NetworkModule

set_option autoImplicit false

namespace GcAdaptor.Throttle

open GcAdaptor.Cxx GcAdaptor.Interleave GcAdaptor.CasCounter GcAdaptor.NetworkModule

/-! ## The six pairs of functions -/

/-- `GetlwtCas` and `PutlwtCas`: `saOpThrottle` is a fixed parameter, and the put
side tests it instead of the count. -/
def lwtCas : Fn := { rereadsLimit := false, checksCount := false }

/-- `GetWritelwtCas` and `PutWritelwtCas`. -/
def writelwtCas : Fn := {}

/-- `GetReadlwtCas` and `PutReadlwtCas`. -/
def readlwtCas : Fn := {}

/-- `GetWriteIopsCas` and `PutWriteIopsCas`: the only pair that reads `isGc`. -/
def writeIopsCas : Fn := { checksGate := true }

/-- `GetWriteBWCas` and `PutWriteBWCas`. -/
def writeBWCas : Fn := {}

/-- `GetReadBWCas` and `PutReadBWCas`. -/
def readBWCas : Fn := {}

/-- The functions of a counter. -/
def fn : Counter → Fn
  | .lwtCount => lwtCas
  | .lwtWriteCount => writelwtCas
  | .lwtReadCount => readlwtCas
  | .writeIops => writeIopsCas
  | .writeBW => writeBWCas
  | .readBW => readBWCas

/-! ## The state -/

/-- Where a request is. -/
inductive Phase
  /-- inside a `Get*` function, with the calls still to come -/
  | getting (cur : Charge) (pc : GetPc) (rest : List Charge)
  /-- spinning on `copyupFlag` before the hand-over -/
  | waitCopyup
  /-- with the cache core -/
  | inFlight
  /-- inside a `Put*` function of `FinishCacheOps` -/
  | putting (cur : Charge) (pc : PutPc) (rest : List Charge)
  | done
  deriving DecidableEq

/-- A request the server has taken. `charged k` records that its `Get` of `k` has
added to the counter and its `Put` has not yet subtracted. -/
structure Job where
  optionType : GcacheType
  optionLength : UInt64
  rejected : Bool := false
  phase : Phase
  charged : Counter → Bool := fun _ => false

/-- `throttle .lwtCount` is `qosParam.saOpThrottle`, the others what `sa->Get*Throttle`
returns just now. -/
structure State where
  throttle : Counter → ℕ
  isGc : ℕ
  count : Counter → ℕ
  /-- worker threads that are between requests -/
  idle : ℕ
  jobs : List Job

/-- `n` workers, nothing in flight, all counters zero. -/
def init (throttle : Counter → ℕ) (isGc n : ℕ) : State :=
  { throttle := throttle, isGc := isGc, count := fun _ => 0, idle := n, jobs := [] }

/-! ## Steps -/

inductive Act
  /-- the cache core reports another throttle -/
  | setThrottle (k : Counter) (v : ℕ)
  | setIsGc (v : ℕ)
  /-- an idle worker runs `ProcessOpReq` -/
  | take (readStatFlag : Bool) (op : MOSDOp)
  /-- one access of the `Get*` or `Put*` function request `i` is in -/
  | access (i : ℕ)
  /-- the worker hands request `i` over -/
  | doOneOps (i : ℕ)
  /-- a completion thread enters `FinishCacheOps` for request `i` -/
  | finishCacheOps (i : ℕ)

def startGets : List Charge → Phase
  | [] => .waitCopyup
  | c :: cs => .getting c .start cs

def startPuts : List Charge → Phase
  | [] => .done
  | c :: cs => .putting c .start cs

/-- The releases among the effects of a rejected request. -/
def putsOf (sent : List Effect) : List Charge :=
  sent.filterMap fun
    | .put c => some c
    | _ => none

/-- A request that is answered by the worker: the option type and length are still
the ones a fresh `SaOpReq` has. -/
def rejectedJob (puts : List Charge) : Job :=
  { optionType := .default, optionLength := 0, rejected := true, phase := startPuts puts }

def acceptedJob (optionType : GcacheType) (optionLength : UInt64) : Job :=
  { optionType := optionType
    optionLength := optionLength
    phase := startGets (admission optionType optionLength) }

def State.setJob (s : State) (i : ℕ) (j : Job) : State := { s with jobs := s.jobs.set i j }

/-- A worker takes a request. An exception ends the process; a request that
`ProcessOpReq` drops leaves nothing behind. -/
def State.take (s : State) (readStatFlag : Bool) (op : MOSDOp) : Option State :=
  match s.idle with
  | 0 => none
  | idle + 1 =>
    match processOpReq readStatFlag op with
    | .threw => none
    | .rejected _ sent =>
      match putsOf sent with
      -- dropped: no reply, no release, and the worker goes on with the next request
      | [] => some s
      | c :: cs => some { s with idle := idle, jobs := s.jobs ++ [rejectedJob (c :: cs)] }
    | .accepted opreq =>
      some { s with
        idle := idle
        jobs := s.jobs ++ [acceptedJob opreq.optionType opreq.optionLength] }

/-- One access inside a `Get*` function. -/
def State.accessGet (s : State) (i : ℕ) (j : Job) (cur : Charge) (pc : GetPc)
    (rest : List Charge) : State :=
  let k := cur.counter
  match getStep (fn k) (s.throttle k) s.isGc (s.count k) pc with
  | .goto pc' => s.setJob i { j with phase := .getting cur pc' rest }
  | .charge pc' =>
    { s.setJob i { j with
        phase := .getting cur pc' rest
        charged := Function.update j.charged k true } with
      count := Function.update s.count k (add64 (s.count k) cur.amount) }
  | .ret => s.setJob i { j with phase := startGets rest }

/-- Whether leaving the last `Put*` frees a worker. -/
def Job.freesWorker (j : Job) (rest : List Charge) : ℕ :=
  if j.rejected && rest.isEmpty then 1 else 0

/-- One access inside a `Put*` function. -/
def State.accessPut (s : State) (i : ℕ) (j : Job) (cur : Charge) (pc : PutPc)
    (rest : List Charge) : State :=
  let k := cur.counter
  match putStep (fn k) (s.throttle k) s.isGc (s.count k) cur.amount pc with
  | .goto pc' => s.setJob i { j with phase := .putting cur pc' rest }
  | .release =>
    { s.setJob i { j with
        phase := startPuts rest
        charged := Function.update j.charged k false } with
      count := Function.update s.count k (sub64 (s.count k) cur.amount)
      idle := s.idle + j.freesWorker rest }
  | .ret =>
    { s.setJob i { j with phase := startPuts rest } with idle := s.idle + j.freesWorker rest }

def step (s : State) : Act → Option State
  | .setThrottle k v =>
    -- `saOpThrottle` is set once, at start
    if k = .lwtCount then none else some { s with throttle := Function.update s.throttle k v }
  | .setIsGc v => some { s with isGc := v }
  | .take readStatFlag op => s.take readStatFlag op
  | .access i =>
    match s.jobs[i]? with
    | none => none
    | some j =>
      match j.phase with
      | .getting cur pc rest => some (s.accessGet i j cur pc rest)
      | .putting cur pc rest => some (s.accessPut i j cur pc rest)
      | _ => none
  | .doOneOps i =>
    match s.jobs[i]? with
    | none => none
    | some j =>
      if j.phase = .waitCopyup then
        -- the worker is free for the next request as soon as this one is handed over
        some { s.setJob i { j with phase := .inFlight } with idle := s.idle + 1 }
      else none
  | .finishCacheOps i =>
    match s.jobs[i]? with
    | none => none
    | some j =>
      if j.phase = .inFlight then
        some (s.setJob i { j with phase := startPuts (release j.optionType j.optionLength) })
      else none

/-! ## What a step can do -/

/-- Every step, with its guards. -/
inductive Step (s : State) : Act → State → Prop
  | setThrottle {k : Counter} {v : ℕ} (h : k ≠ .lwtCount) :
      Step s (.setThrottle k v) { s with throttle := Function.update s.throttle k v }
  | setIsGc {v : ℕ} : Step s (.setIsGc v) { s with isGc := v }
  | dropped {readStatFlag : Bool} {op : MOSDOp} : Step s (.take readStatFlag op) s
  | rejected {readStatFlag : Bool} {op : MOSDOp} {idle : ℕ} (hidle : s.idle = idle + 1)
      (hbad : badRbdName op = true) :
      Step s (.take readStatFlag op)
        { s with idle := idle, jobs := s.jobs ++ [rejectedJob (release .default 0)] }
  | accepted {readStatFlag : Bool} {op : MOSDOp} {opreq : SaOpReq} {idle : ℕ}
      (hidle : s.idle = idle + 1) (hop : processOpReq readStatFlag op = .accepted opreq) :
      Step s (.take readStatFlag op)
        { s with
          idle := idle
          jobs := s.jobs ++ [acceptedJob opreq.optionType opreq.optionLength] }
  | accessGet {i : ℕ} {j : Job} {cur : Charge} {pc : GetPc} {rest : List Charge}
      (hi : s.jobs[i]? = some j) (hp : j.phase = .getting cur pc rest) :
      Step s (.access i) (s.accessGet i j cur pc rest)
  | accessPut {i : ℕ} {j : Job} {cur : Charge} {pc : PutPc} {rest : List Charge}
      (hi : s.jobs[i]? = some j) (hp : j.phase = .putting cur pc rest) :
      Step s (.access i) (s.accessPut i j cur pc rest)
  | doOneOps {i : ℕ} {j : Job} (hi : s.jobs[i]? = some j) (hp : j.phase = .waitCopyup) :
      Step s (.doOneOps i)
        { s.setJob i { j with phase := .inFlight } with idle := s.idle + 1 }
  | finishCacheOps {i : ℕ} {j : Job} (hi : s.jobs[i]? = some j) (hp : j.phase = .inFlight) :
      Step s (.finishCacheOps i)
        (s.setJob i { j with phase := startPuts (release j.optionType j.optionLength) })

theorem putsOf_finishCacheOps (t : GcacheType) (l : UInt64) (r : ℤ) :
    putsOf (finishCacheOps t l r) = release t l := by
  have hput : ∀ cs : List Charge, putsOf (cs.map .put) = cs := by
    intro cs
    simp [putsOf, List.filterMap_map]
  exact hput (release t l)

theorem take_cases {s t : State} {readStatFlag : Bool} {op : MOSDOp}
    (h : s.take readStatFlag op = some t) : Step s (.take readStatFlag op) t := by
  unfold State.take at h
  cases hidle : s.idle with
  | zero => simp [hidle] at h
  | succ idle =>
    rw [hidle] at h
    cases hop : processOpReq readStatFlag op with
    | threw => simp [hop] at h
    | accepted opreq =>
      simp only [hop, Option.some.injEq] at h
      exact h ▸ Step.accepted hidle hop
    | rejected ret sent =>
      simp only [hop] at h
      -- either the name was bad and there is something to release, or nothing was sent
      rcases processOpReq_rejected hop with ⟨hbad, rfl⟩ | ⟨-, rfl⟩
      · rw [putsOf_finishCacheOps] at h
        obtain rfl : _ = t := Option.some.inj h
        exact Step.rejected hidle hbad
      · obtain rfl : s = t := Option.some.inj h
        exact Step.dropped

/-- **Inversion.** -/
theorem step_cases {s t : State} {a : Act} (h : step s a = some t) : Step s a t := by
  cases a with
  | setThrottle k v =>
    simp only [step] at h
    split_ifs at h with hk
    exact Option.some.inj h ▸ Step.setThrottle hk
  | setIsGc v => exact Option.some.inj h ▸ Step.setIsGc
  | take readStatFlag op => exact take_cases h
  | access i =>
    simp only [step] at h
    cases hi : s.jobs[i]? with
    | none => simp [hi] at h
    | some j =>
      cases hp : j.phase with
      | getting cur pc rest =>
        simp only [hi, hp, Option.some.injEq] at h
        exact h ▸ Step.accessGet hi hp
      | putting cur pc rest =>
        simp only [hi, hp, Option.some.injEq] at h
        exact h ▸ Step.accessPut hi hp
      | _ => simp [hi, hp] at h
  | doOneOps i =>
    simp only [step] at h
    cases hi : s.jobs[i]? with
    | none => simp [hi] at h
    | some j =>
      simp only [hi] at h
      split_ifs at h with hp
      exact Option.some.inj h ▸ Step.doOneOps hi hp
  | finishCacheOps i =>
    simp only [step] at h
    cases hi : s.jobs[i]? with
    | none => simp [hi] at h
    | some j =>
      simp only [hi] at h
      split_ifs at h with hp
      exact Option.some.inj h ▸ Step.finishCacheOps hi hp

/-! ## One counter at a time -/

/-- What a request is charged with. -/
def Job.charges (j : Job) : List Charge := admission j.optionType j.optionLength

def Job.uses (j : Job) (k : Counter) : Prop := k ∈ j.charges.map (·.counter)

instance (j : Job) (k : Counter) : Decidable (j.uses k) := by
  unfold Job.uses
  infer_instance

/-- The amount `k` is charged with; zero for a counter the request does not use. -/
def Job.amount (j : Job) (k : Counter) : ℕ :=
  ((j.charges.find? (·.counter = k)).map (·.amount)).getD 0

/-- Where a request is, seen from counter `k`. -/
def Job.stage (j : Job) (k : Counter) : Stage :=
  if j.uses k then
    match j.phase with
    | .getting cur pc rest =>
      if cur.counter = k then .getting pc
      else if k ∈ rest.map (·.counter) then .before else .holding
    | .waitCopyup | .inFlight => .holding
    | .putting cur pc rest =>
      if cur.counter = k then .putting pc
      else if k ∈ rest.map (·.counter) then .holding else .after
    | .done => .after
  else .after

def Job.client (k : Counter) (j : Job) : Client :=
  { amount := j.amount k, stage := j.stage k, charged := j.charged k }

/-- Counter `k` with the requests as its clients. -/
def State.proj (s : State) (k : Counter) : CState :=
  { limit := s.throttle k
    gate := s.isGc
    count := s.count k
    clients := s.jobs.map (Job.client k) }

/-- The calls a request has left are the tail of its list, and a rejected one makes
no `Get` calls. -/
def Job.Wf (j : Job) : Prop :=
  match j.phase with
  | .getting cur _ rest => cur :: rest <:+ j.charges ∧ j.rejected = false
  | .waitCopyup | .inFlight => j.rejected = false
  | .putting cur _ rest => cur :: rest <:+ release j.optionType j.optionLength
  | .done => True

theorem admission_nodup (t : GcacheType) (l : UInt64) :
    ((admission t l).map (·.counter)).Nodup := by
  cases t <;> simp [admission]

theorem release_nodup (t : GcacheType) (l : UInt64) :
    ((release t l).map (·.counter)).Nodup := by
  cases t <;> simp [release]

theorem mem_release_iff (t : GcacheType) (l : UInt64) (c : Charge) :
    c ∈ release t l ↔ c ∈ admission t l := by
  cases t <;> simp [release, admission] <;> tauto

theorem find_counter {cs : List Charge} (hnd : (cs.map (·.counter)).Nodup) {c : Charge}
    (h : c ∈ cs) : cs.find? (·.counter = c.counter) = some c := by
  induction cs with
  | nil => simp at h
  | cons d cs ih =>
    rw [List.map_cons, List.nodup_cons] at hnd
    rcases List.mem_cons.mp h with rfl | h
    · simp
    · have hne : d.counter ≠ c.counter := fun he => hnd.1 (he ▸ List.mem_map_of_mem h)
      rw [List.find?_cons_of_neg (by simpa using hne)]
      exact ih hnd.2 h

/-- The list of a request's calls determines the amount. -/
theorem Job.amount_of_mem {j : Job} {c : Charge} (h : c ∈ j.charges) :
    j.amount c.counter = c.amount := by
  unfold Job.amount
  rw [show j.charges.find? (·.counter = c.counter) = some c from
    find_counter (admission_nodup _ _) h]
  rfl

theorem Job.uses_of_mem {j : Job} {c : Charge} (h : c ∈ j.charges) : j.uses c.counter :=
  List.mem_map_of_mem h

/-- What is left after the current call is on other counters. -/
theorem not_mem_rest {cur : Charge} {rest cs : List Charge} (h : cur :: rest <:+ cs)
    (hnd : (cs.map (·.counter)).Nodup) : cur.counter ∉ rest.map (·.counter) := by
  have hsub : (cur :: rest).map (·.counter) <:+ cs.map (·.counter) := h.map _
  have := hnd.sublist hsub.sublist
  rw [List.map_cons, List.nodup_cons] at this
  exact this.1

section Stages

variable {j : Job} {k : Counter} {cur : Charge} {rest : List Charge}

/-- A stage change that only enters a `Get` or a `Put`, or none at all. -/
def Entered (st st' : Stage) : Prop :=
  st' = st ∨ (st = .before ∧ st' = .getting .start) ∨ (st = .holding ∧ st' = .putting .start)

theorem Job.stage_of_not_uses (h : ¬ j.uses k) : j.stage k = .after := if_neg h

/-- A request that does not use `k` does not move with respect to it. -/
theorem Job.stage_eq_of_not_uses {j' : Job} (hu : j'.uses k ↔ j.uses k) (hj : ¬ j.uses k) :
    j'.stage k = j.stage k := by
  rw [Job.stage_of_not_uses hj, Job.stage_of_not_uses (hu.not.mpr hj)]

theorem Job.uses_iff_release :
    j.uses k ↔ k ∈ (release j.optionType j.optionLength).map (·.counter) := by
  simp only [Job.uses, List.mem_map, mem_release_iff, Job.charges]

/-- Moving on to the calls in `rest`: a counter among them is entered or still
ahead, every other one is held. -/
theorem Job.stage_startGets (hp : j.phase = startGets rest) (hu : j.uses k) :
    (k ∈ rest.map (·.counter) ∧ (j.stage k = .before ∨ j.stage k = .getting .start)) ∨
      (k ∉ rest.map (·.counter) ∧ j.stage k = .holding) := by
  unfold Job.stage
  rw [if_pos hu, hp]
  cases rest with
  | nil => simp [startGets]
  | cons c cs =>
    by_cases hc : c.counter = k
    · simp [startGets, hc]
    · by_cases hk : k ∈ cs.map (·.counter)
      · simp [startGets, hc, hk]
      · simp [startGets, hc, hk, Ne.symm hc]

/-- Moving on to the releases in `rest`. -/
theorem Job.stage_startPuts (hp : j.phase = startPuts rest) (hu : j.uses k) :
    (k ∈ rest.map (·.counter) ∧ (j.stage k = .holding ∨ j.stage k = .putting .start)) ∨
      (k ∉ rest.map (·.counter) ∧ j.stage k = .after) := by
  unfold Job.stage
  rw [if_pos hu, hp]
  cases rest with
  | nil => simp [startPuts]
  | cons c cs =>
    by_cases hc : c.counter = k
    · simp [startPuts, hc]
    · by_cases hk : k ∈ cs.map (·.counter)
      · simp [startPuts, hc, hk]
      · simp [startPuts, hc, hk, Ne.symm hc]

theorem Job.stage_getting {pc : GetPc} (hp : j.phase = .getting cur pc rest) (hu : j.uses k) :
    j.stage k = if cur.counter = k then .getting pc
      else if k ∈ rest.map (·.counter) then .before else .holding := by
  unfold Job.stage
  rw [if_pos hu, hp]

theorem Job.stage_putting {pc : PutPc} (hp : j.phase = .putting cur pc rest) (hu : j.uses k) :
    j.stage k = if cur.counter = k then .putting pc
      else if k ∈ rest.map (·.counter) then .holding else .after := by
  unfold Job.stage
  rw [if_pos hu, hp]

/-- Only a request inside a `Get` of `k` looks so. -/
theorem Job.phase_of_stage_getting {pc : GetPc} (h : j.stage k = .getting pc) :
    ∃ cur rest, j.phase = .getting cur pc rest ∧ cur.counter = k := by
  by_cases hu : j.uses k
  · cases hp : j.phase with
    | getting cur pc' rest =>
      rw [Job.stage_getting hp hu] at h
      split_ifs at h with hk
      exact ⟨cur, rest, by simpa using h, hk⟩
    | putting cur pc' rest =>
      rw [Job.stage_putting hp hu] at h
      split_ifs at h
    | _ => simp [Job.stage, hu, hp] at h
  · simp [Job.stage_of_not_uses hu] at h

theorem Job.stage_getting_self {pc : GetPc} (hp : j.phase = .getting cur pc rest)
    (hu : j.uses k) (hk : cur.counter = k) : j.stage k = .getting pc := by
  rw [Job.stage_getting hp hu, if_pos hk]

theorem Job.stage_putting_self {pc : PutPc} (hp : j.phase = .putting cur pc rest)
    (hu : j.uses k) (hk : cur.counter = k) : j.stage k = .putting pc := by
  rw [Job.stage_putting hp hu, if_pos hk]

/-- Moving inside the `Get` of another counter. -/
theorem Job.stage_getting_other {j' : Job} {pc pc' : GetPc}
    (hp : j.phase = .getting cur pc rest) (hp' : j'.phase = .getting cur pc' rest)
    (hu : j'.uses k ↔ j.uses k) (hk : cur.counter ≠ k) : j'.stage k = j.stage k := by
  by_cases hj : j.uses k
  · rw [Job.stage_getting hp hj, Job.stage_getting hp' (hu.mpr hj), if_neg hk, if_neg hk]
  · exact Job.stage_eq_of_not_uses hu hj

/-- Moving inside the `Put` of another counter. -/
theorem Job.stage_putting_other {j' : Job} {pc pc' : PutPc}
    (hp : j.phase = .putting cur pc rest) (hp' : j'.phase = .putting cur pc' rest)
    (hu : j'.uses k ↔ j.uses k) (hk : cur.counter ≠ k) : j'.stage k = j.stage k := by
  by_cases hj : j.uses k
  · rw [Job.stage_putting hp hj, Job.stage_putting hp' (hu.mpr hj), if_neg hk, if_neg hk]
  · exact Job.stage_eq_of_not_uses hu hj

/-- Leaving the `Get` of another counter. -/
theorem Job.entered_of_getting {j' : Job} {pc : GetPc} (hp : j.phase = .getting cur pc rest)
    (hp' : j'.phase = startGets rest) (hu : j'.uses k ↔ j.uses k) (hk : cur.counter ≠ k) :
    Entered (j.stage k) (j'.stage k) := by
  by_cases hj : j.uses k
  · rw [Job.stage_getting hp hj, if_neg hk]
    rcases Job.stage_startGets hp' (hu.mpr hj) with ⟨hmem, h | h⟩ | ⟨hmem, h⟩
    · exact .inl (by rw [h, if_pos hmem])
    · exact .inr (.inl ⟨if_pos hmem, h⟩)
    · exact .inl (by rw [h, if_neg hmem])
  · exact .inl (Job.stage_eq_of_not_uses hu hj)

/-- Leaving the `Put` of another counter. -/
theorem Job.entered_of_putting {j' : Job} {pc : PutPc} (hp : j.phase = .putting cur pc rest)
    (hp' : j'.phase = startPuts rest) (hu : j'.uses k ↔ j.uses k) (hk : cur.counter ≠ k) :
    Entered (j.stage k) (j'.stage k) := by
  by_cases hj : j.uses k
  · rw [Job.stage_putting hp hj, if_neg hk]
    rcases Job.stage_startPuts hp' (hu.mpr hj) with ⟨hmem, h | h⟩ | ⟨hmem, h⟩
    · exact .inl (by rw [h, if_pos hmem])
    · exact .inr (.inr ⟨if_pos hmem, h⟩)
    · exact .inl (by rw [h, if_neg hmem])
  · exact .inl (Job.stage_eq_of_not_uses hu hj)

/-- Entering `FinishCacheOps`. -/
theorem Job.entered_of_inFlight {j' : Job} (hp : j.phase = .inFlight)
    (hp' : j'.phase = startPuts (release j.optionType j.optionLength))
    (hu : j'.uses k ↔ j.uses k) : Entered (j.stage k) (j'.stage k) := by
  by_cases hj : j.uses k
  · have hst : j.stage k = .holding := by
      unfold Job.stage
      rw [if_pos hj, hp]
    rcases Job.stage_startPuts hp' (hu.mpr hj) with ⟨_, h | h⟩ | ⟨hmem, _⟩
    · exact .inl (by rw [h, hst])
    · exact .inr (.inr ⟨hst, h⟩)
    · exact absurd (Job.uses_iff_release.mp hj) hmem
  · exact .inl (Job.stage_eq_of_not_uses hu hj)

end Stages

/-! ## The simulation -/

/-- Nobody is between its `Get` and the end of its `Put` of `k`. -/
def NoneInFlight (k : Counter) (s : State) : Prop :=
  ∀ j ∈ s.jobs, j.stage k = .before ∨ j.stage k = .after

/-- The step does not switch `k` on or off under a request that is in flight: a
throttle, or `isGc` for the counter that reads it, goes between zero and non-zero
only while there is none. -/
def Steady (k : Counter) (s : State) : Act → Prop
  | .setThrottle k' v => k' = k → (s.throttle k = 0 ↔ v = 0) ∨ NoneInFlight k s
  | .setIsGc v => (fn k).checksGate = true → (s.isGc = 0 ↔ v = 0) ∨ NoneInFlight k s
  | _ => True

/-- The compare-and-swap of a `Get` of `k` does not overflow 64 bits. -/
def Fits (k : Counter) (s : State) : Act → Prop
  | .access i => ∀ j cur pc rest pc', s.jobs[i]? = some j → j.phase = .getting cur pc rest →
      cur.counter = k → getStep (fn k) (s.throttle k) s.isGc (s.count k) pc = .charge pc' →
      s.count k + cur.amount < 2 ^ 64
  | _ => True

/-- No request is rejected for its name. -/
def NoBadName (_ : State) : Act → Prop
  | .take _ op => badRbdName op = false
  | _ => True

/-- The step from `s` to `t` is a move of counter `k`, or does not concern it. -/
def Sim (k : Counter) (s t : State) : Prop :=
  Move (fn k) (s.proj k) (t.proj k) ∨ t.proj k = s.proj k

section Simulation

variable {k : Counter} {s t : State} {i : ℕ} {j j' : Job} {cur : Charge} {rest : List Charge}

theorem clients_get (hi : s.jobs[i]? = some j) :
    (s.proj k).clients[i]? = some (j.client k) := by
  simp [State.proj, hi]

/-- Replacing one request, seen from `k`. -/
theorem proj_setJob {c : Client} {v : ℕ} (hthr : t.throttle k = s.throttle k)
    (hgc : t.isGc = s.isGc) (hcount : t.count k = v) (hjobs : t.jobs = s.jobs.set i j')
    (hclient : j'.client k = c) :
    t.proj k = { s.proj k with count := v, clients := (s.proj k).clients.set i c } := by
  simp [State.proj, hthr, hgc, hcount, hjobs, hclient, List.map_set]

/-- A request that enters a `Get` or `Put` of `k`, or does something unrelated. -/
theorem sim_of_entered (hi : s.jobs[i]? = some j) (hthr : t.throttle k = s.throttle k)
    (hgc : t.isGc = s.isGc) (hcount : t.count k = s.count k) (hjobs : t.jobs = s.jobs.set i j')
    (ham : j'.amount k = j.amount k) (hch : j'.charged k = j.charged k)
    (hst : Entered (j.stage k) (j'.stage k)) : Sim k s t := by
  have hget := clients_get (k := k) hi
  have hclient : j'.client k = { j.client k with stage := j'.stage k } := by
    simp [Job.client, ham, hch]
  have hproj := proj_setJob hthr hgc hcount hjobs hclient
  -- stays where it is, enters its `Get`, or enters its `Put`
  rcases hst with hst | ⟨hst, hst'⟩ | ⟨hst, hst'⟩
  · right
    rw [hproj, hst]
    have hself := set_self hget
    simp only [Job.client] at hself ⊢
    rw [hself]
    rfl
  · left
    rw [hproj, hst']
    exact Move.enter hget hst
  · left
    rw [hproj, hst']
    exact Move.leave hget hst

theorem Job.suffix_charges_of_getting {pc : GetPc} (hwf : j.Wf)
    (hp : j.phase = .getting cur pc rest) : cur :: rest <:+ j.charges := by
  unfold Job.Wf at hwf
  rw [hp] at hwf
  exact hwf.1

theorem Job.suffix_release_of_putting {pc : PutPc} (hwf : j.Wf)
    (hp : j.phase = .putting cur pc rest) :
    cur :: rest <:+ release j.optionType j.optionLength := by
  unfold Job.Wf at hwf
  rwa [hp] at hwf

theorem Job.client_eq {c : Client} (ham : j.amount k = c.amount) (hst : j.stage k = c.stage)
    (hch : j.charged k = c.charged) : j.client k = c := by
  simp [Job.client, ham, hst, hch]

section AccessGet

variable {pc pc' : GetPc}

theorem accessGet_of_goto
    (h : getStep (fn cur.counter) (s.throttle cur.counter) s.isGc (s.count cur.counter) pc =
      .goto pc') :
    s.accessGet i j cur pc rest = s.setJob i { j with phase := .getting cur pc' rest } := by
  simp [State.accessGet, h]

theorem accessGet_of_charge
    (h : getStep (fn cur.counter) (s.throttle cur.counter) s.isGc (s.count cur.counter) pc =
      .charge pc') :
    s.accessGet i j cur pc rest =
      { s.setJob i { j with
          phase := .getting cur pc' rest
          charged := Function.update j.charged cur.counter true } with
        count := Function.update s.count cur.counter
          (add64 (s.count cur.counter) cur.amount) } := by
  simp [State.accessGet, h]

theorem accessGet_of_ret
    (h : getStep (fn cur.counter) (s.throttle cur.counter) s.isGc (s.count cur.counter) pc =
      .ret) :
    s.accessGet i j cur pc rest = s.setJob i { j with phase := startGets rest } := by
  simp [State.accessGet, h]

/-- The request is in a `Get` of `k` itself: its access is the counter's. -/
theorem proj_accessGet (hp : j.phase = .getting cur pc rest) (hwf : j.Wf)
    (hk : cur.counter = k) :
    (s.accessGet i j cur pc rest).proj k =
      { s.proj k with
        count := ((j.client k).get (fn k) (s.proj k) pc).1
        clients := (s.proj k).clients.set i ((j.client k).get (fn k) (s.proj k) pc).2 } := by
  have hsuf := Job.suffix_charges_of_getting hwf hp
  have hmem : cur ∈ j.charges := hsuf.mem (by simp)
  have hu : j.uses k := hk ▸ Job.uses_of_mem hmem
  have ham : (j.client k).amount = cur.amount := hk ▸ Job.amount_of_mem hmem
  have hrest : k ∉ rest.map (·.counter) := hk ▸ not_mem_rest hsuf (admission_nodup _ _)
  have hget : ∀ {j' : Job} {pc' : GetPc}, j'.phase = .getting cur pc' rest → j'.uses k →
      j'.stage k = .getting pc' := fun hp' hu' => Job.stage_getting_self hp' hu' hk
  subst hk
  cases hn : getStep (fn cur.counter) (s.throttle cur.counter) s.isGc (s.count cur.counter) pc with
  | goto pc' =>
    rw [Client.get_of_goto (p := pc') hn, accessGet_of_goto hn]
    exact proj_setJob rfl rfl rfl rfl (Job.client_eq rfl (hget rfl hu) rfl)
  | charge pc' =>
    rw [Client.get_of_charge (p := pc') hn, accessGet_of_charge hn, ham]
    exact proj_setJob rfl rfl (Function.update_self ..) rfl
      (Job.client_eq ham (hget rfl hu) (Function.update_self ..))
  | ret =>
    -- `k` is not among the calls to come, so from now on it is held
    rw [Client.get_of_ret hn, accessGet_of_ret hn]
    refine proj_setJob rfl rfl rfl rfl (Job.client_eq rfl ?_ rfl)
    rcases Job.stage_startGets (j := { j with phase := startGets rest }) rfl hu with h | h
    · exact absurd h.1 hrest
    · exact h.2

/-- One access inside a `Get`. -/
theorem sim_accessGet (hi : s.jobs[i]? = some j) (hp : j.phase = .getting cur pc rest)
    (hwf : j.Wf) (hfit : Fits k s (.access i)) : Sim k s (s.accessGet i j cur pc rest) := by
  by_cases hk : cur.counter = k
  · -- the access of this counter, which `Fits` keeps from overflowing
    left
    have hsuf := Job.suffix_charges_of_getting hwf hp
    have hmem : cur ∈ j.charges := hsuf.mem (by simp)
    have hst := Job.stage_getting_self hp (hk ▸ Job.uses_of_mem hmem) hk
    rw [proj_accessGet hp hwf hk]
    refine Move.get (clients_get hi) hst ?_
    rintro ⟨pc', hcharge, hge⟩
    have hlt := hfit j cur pc rest pc' hi hp hk hcharge
    rw [← Job.amount_of_mem hmem, hk] at hlt
    exact absurd hge (not_le.mpr hlt)
  · -- an access of another counter at most leads up to the `Get` of `k`
    cases hn : getStep (fn cur.counter) (s.throttle cur.counter) s.isGc (s.count cur.counter)
        pc with
    | goto pc' =>
      rw [accessGet_of_goto hn]
      exact sim_of_entered hi rfl rfl rfl rfl rfl rfl
        (.inl (Job.stage_getting_other hp rfl Iff.rfl hk))
    | charge pc' =>
      rw [accessGet_of_charge hn]
      exact sim_of_entered hi rfl rfl (Function.update_of_ne (Ne.symm hk) ..) rfl rfl
        (Function.update_of_ne (Ne.symm hk) ..)
        (.inl (Job.stage_getting_other hp rfl Iff.rfl hk))
    | ret =>
      rw [accessGet_of_ret hn]
      exact sim_of_entered hi rfl rfl rfl rfl rfl rfl
        (Job.entered_of_getting hp rfl Iff.rfl hk)

end AccessGet

section AccessPut

variable {pc pc' : PutPc}

theorem accessPut_of_goto
    (h : putStep (fn cur.counter) (s.throttle cur.counter) s.isGc (s.count cur.counter)
      cur.amount pc = .goto pc') :
    s.accessPut i j cur pc rest = s.setJob i { j with phase := .putting cur pc' rest } := by
  simp [State.accessPut, h]

theorem accessPut_of_release
    (h : putStep (fn cur.counter) (s.throttle cur.counter) s.isGc (s.count cur.counter)
      cur.amount pc = .release) :
    s.accessPut i j cur pc rest =
      { s.setJob i { j with
          phase := startPuts rest
          charged := Function.update j.charged cur.counter false } with
        count := Function.update s.count cur.counter
          (sub64 (s.count cur.counter) cur.amount)
        idle := s.idle + j.freesWorker rest } := by
  simp [State.accessPut, h]

theorem accessPut_of_ret
    (h : putStep (fn cur.counter) (s.throttle cur.counter) s.isGc (s.count cur.counter)
      cur.amount pc = .ret) :
    s.accessPut i j cur pc rest =
      { s.setJob i { j with phase := startPuts rest } with
        idle := s.idle + j.freesWorker rest } := by
  simp [State.accessPut, h]

/-- The request is in a `Put` of `k` itself. -/
theorem proj_accessPut (hp : j.phase = .putting cur pc rest) (hwf : j.Wf)
    (hk : cur.counter = k) :
    (s.accessPut i j cur pc rest).proj k =
      { s.proj k with
        count := ((j.client k).put (fn k) (s.proj k) pc).1
        clients := (s.proj k).clients.set i ((j.client k).put (fn k) (s.proj k) pc).2 } := by
  have hsuf := Job.suffix_release_of_putting hwf hp
  have hmem : cur ∈ j.charges := (mem_release_iff _ _ _).mp (hsuf.mem (by simp))
  have hu : j.uses k := hk ▸ Job.uses_of_mem hmem
  have ham : (j.client k).amount = cur.amount := hk ▸ Job.amount_of_mem hmem
  -- a request releases a counter once, so the rest does not come back to `k`
  have hrest : k ∉ rest.map (·.counter) := hk ▸ not_mem_rest hsuf (release_nodup _ _)
  have hput : ∀ {j' : Job} {pc' : PutPc}, j'.phase = .putting cur pc' rest → j'.uses k →
      j'.stage k = .putting pc' := fun hp' hu' => Job.stage_putting_self hp' hu' hk
  have hafter : ∀ {j' : Job}, j'.phase = startPuts rest → j'.uses k → j'.stage k = .after := by
    intro j' hp' hu'
    rcases Job.stage_startPuts hp' hu' with h | h
    · exact absurd h.1 hrest
    · exact h.2
  subst hk
  cases hn : putStep (fn cur.counter) (s.throttle cur.counter) s.isGc (s.count cur.counter)
      cur.amount pc with
  | goto pc' =>
    rw [Client.put_of_goto (p := pc') (by rw [ham]; exact hn), accessPut_of_goto hn]
    exact proj_setJob rfl rfl rfl rfl (Job.client_eq rfl (hput rfl hu) rfl)
  | release =>
    rw [Client.put_of_release (by rw [ham]; exact hn), accessPut_of_release hn, ham]
    exact proj_setJob rfl rfl (Function.update_self ..) rfl
      (Job.client_eq ham (hafter rfl hu) (Function.update_self ..))
  | ret =>
    rw [Client.put_of_ret (by rw [ham]; exact hn), accessPut_of_ret hn]
    exact proj_setJob rfl rfl rfl rfl (Job.client_eq rfl (hafter rfl hu) rfl)

/-- One access inside a `Put`. -/
theorem sim_accessPut (hi : s.jobs[i]? = some j) (hp : j.phase = .putting cur pc rest)
    (hwf : j.Wf) : Sim k s (s.accessPut i j cur pc rest) := by
  by_cases hk : cur.counter = k
  · left
    have hsuf := Job.suffix_release_of_putting hwf hp
    have hmem : cur ∈ j.charges := (mem_release_iff _ _ _).mp (hsuf.mem (by simp))
    have hst := Job.stage_putting_self hp (hk ▸ Job.uses_of_mem hmem) hk
    rw [proj_accessPut hp hwf hk]
    exact Move.put (clients_get hi) hst
  · cases hn : putStep (fn cur.counter) (s.throttle cur.counter) s.isGc (s.count cur.counter)
        cur.amount pc with
    | goto pc' =>
      rw [accessPut_of_goto hn]
      exact sim_of_entered hi rfl rfl rfl rfl rfl rfl
        (.inl (Job.stage_putting_other hp rfl Iff.rfl hk))
    | release =>
      rw [accessPut_of_release hn]
      exact sim_of_entered hi rfl rfl (Function.update_of_ne (Ne.symm hk) ..) rfl rfl
        (Function.update_of_ne (Ne.symm hk) ..) (Job.entered_of_putting hp rfl Iff.rfl hk)
    | ret =>
      rw [accessPut_of_ret hn]
      exact sim_of_entered hi rfl rfl rfl rfl rfl rfl
        (Job.entered_of_putting hp rfl Iff.rfl hk)

end AccessPut

theorem stage_acceptedJob (ty : GcacheType) (l : UInt64) :
    (acceptedJob ty l).stage k = .before ∨ (acceptedJob ty l).stage k = .getting .start ∨
      (acceptedJob ty l).stage k = .after := by
  by_cases hu : (acceptedJob ty l).uses k
  · have hstart : (acceptedJob ty l).phase = startGets (admission ty l) := rfl
    rcases Job.stage_startGets hstart hu with ⟨_, h | h⟩ | ⟨hmem, _⟩
    · exact .inl h
    · exact .inr (.inl h)
    · exact absurd hu hmem
  · exact .inr (.inr (Job.stage_of_not_uses hu))

theorem stage_rejectedJob (hk : k ≠ .lwtCount) (puts : List Charge) :
    (rejectedJob puts).stage k = .after :=
  Job.stage_of_not_uses (by simp [Job.uses, Job.charges, rejectedJob, admission, hk])

/-- **The simulation.** A step that keeps `k` steady and within 64 bits, and that is
not the rejection of a name where `k` is `lwtCount`, is a move of counter `k` or
leaves it alone. -/
theorem step_move {a : Act} (h : Step s a t) (hwf : ∀ j ∈ s.jobs, j.Wf)
    (hsteady : Steady k s a) (hfits : Fits k s a) (hname : k = .lwtCount → NoBadName s a) :
    Sim k s t := by
  cases h with
  | @setThrottle k' v hk' =>
    by_cases hk : k' = k
    · subst hk
      left
      have hproj : State.proj { s with throttle := Function.update s.throttle k' v } k' =
          { s.proj k' with limit := v, gate := s.isGc } := by
        simp [State.proj]
      rw [hproj]
      refine Move.env v s.isGc ?_
      rcases hsteady rfl with hz | hq
      · exact .inl ⟨hz, fun _ => Iff.rfl⟩
      · exact .inr (by simpa [Quiet, State.proj, Job.client, NoneInFlight] using hq)
    · right
      simp [State.proj, Function.update_of_ne (Ne.symm hk)]
  | @setIsGc v =>
    left
    refine Move.env (s.throttle k) v ?_
    by_cases hg : (fn k).checksGate = true
    · rcases hsteady hg with hz | hq
      · exact .inl ⟨Iff.rfl, fun _ => hz⟩
      · exact .inr (by simpa [Quiet, State.proj, Job.client, NoneInFlight] using hq)
    · exact .inl ⟨Iff.rfl, fun hg' => absurd hg' hg⟩
  | dropped => exact .inr rfl
  | @rejected _ op idle _ hbad =>
    -- it releases `lwtCount` only, and for that counter it is excluded
    have hk : k ≠ .lwtCount := by
      intro hk
      have : badRbdName op = false := hname hk
      simp [this] at hbad
    left
    have := Move.join (f := fn k) (s := s.proj k)
      ((rejectedJob (release .default 0)).client k)
      (.inr (.inr (stage_rejectedJob hk _))) rfl
    simpa [State.proj] using this
  | @accepted _ _ opreq =>
    left
    have := Move.join (f := fn k) (s := s.proj k)
      ((acceptedJob opreq.optionType opreq.optionLength).client k)
      (stage_acceptedJob _ _) rfl
    simpa [State.proj] using this
  | accessGet hi hp => exact sim_accessGet hi hp (hwf _ (List.mem_of_getElem? hi)) hfits
  | accessPut hi hp => exact sim_accessPut hi hp (hwf _ (List.mem_of_getElem? hi))
  | @doOneOps i j hi hp =>
    refine sim_of_entered hi rfl rfl rfl rfl rfl rfl (.inl ?_)
    unfold Job.stage
    rw [hp]
    rfl
  | finishCacheOps hi hp =>
    exact sim_of_entered hi rfl rfl rfl rfl rfl rfl (Job.entered_of_inFlight hp rfl Iff.rfl)

end Simulation

/-! ## What holds of the requests themselves -/

/-- The request occupies a worker thread. -/
def Job.onWorker (j : Job) : ℕ :=
  match j.phase with
  | .getting _ _ _ | .waitCopyup => 1
  | .putting _ _ _ => if j.rejected then 1 else 0
  | .inFlight | .done => 0

section Jobs

variable {s t : State} {a : Act} {j j' : Job} {cur : Charge} {rest : List Charge} {i n : ℕ}

theorem Job.wf_startGets (hp : j.phase = startGets rest) (h : rest <:+ j.charges)
    (hrej : j.rejected = false) : j.Wf := by
  unfold Job.Wf
  rw [hp]
  cases rest with
  | nil => exact hrej
  | cons c cs => exact ⟨h, hrej⟩

theorem Job.wf_startPuts (hp : j.phase = startPuts rest)
    (h : rest <:+ release j.optionType j.optionLength) : j.Wf := by
  unfold Job.Wf
  rw [hp]
  cases rest with
  | nil => trivial
  | cons c cs => exact h

theorem suffix_of_cons {cs : List Charge} (h : cur :: rest <:+ cs) : rest <:+ cs :=
  (List.suffix_cons cur rest).trans h

theorem onWorker_startGets (hp : j.phase = startGets rest) : j.onWorker = 1 := by
  unfold Job.onWorker
  rw [hp]
  cases rest <;> rfl

/-- Leaving a `Put`: the worker of a rejected request is free again after the last. -/
theorem onWorker_startPuts (hp : j.phase = startPuts rest) :
    j.onWorker + j.freesWorker rest = if j.rejected then 1 else 0 := by
  unfold Job.onWorker Job.freesWorker
  rw [hp]
  cases rest <;> cases j.rejected <;> rfl

theorem onWorker_completing (hp : j.phase = startPuts rest) (hrej : j.rejected = false) :
    j.onWorker = 0 := by
  have hsum := onWorker_startPuts hp
  rw [hrej, if_neg (by simp)] at hsum
  omega

/-- The requests stay well-formed and the workers are accounted for. -/
structure JobsInv (n : ℕ) (s : State) : Prop where
  wf : ∀ j ∈ s.jobs, j.Wf
  workers : s.idle + total Job.onWorker s.jobs = n

theorem JobsInv.setJob (h : JobsInv n s) (hi : s.jobs[i]? = some j)
    (hjobs : t.jobs = s.jobs.set i j') (hwf : j'.Wf)
    (hw : t.idle + j'.onWorker = s.idle + j.onWorker) : JobsInv n t where
  wf := hjobs ▸ forall_mem_set h.wf hwf
  workers := by
    have hset := total_set (f := Job.onWorker) (y := j') hi
    have := h.workers
    rw [hjobs]
    omega

theorem JobsInv.join (h : JobsInv n s) (hjobs : t.jobs = s.jobs ++ [j]) (hwf : j.Wf)
    (hidle : s.idle = t.idle + 1) (hw : j.onWorker = 1) : JobsInv n t where
  wf := by
    rw [hjobs]
    simpa [or_imp, forall_and, hwf] using h.wf
  workers := by
    have := h.workers
    rw [hjobs, total_append, total_cons, total_nil, hw]
    omega

theorem JobsInv.accessGet {pc : GetPc} (h : JobsInv n s) (hi : s.jobs[i]? = some j)
    (hp : j.phase = .getting cur pc rest) : JobsInv n (s.accessGet i j cur pc rest) := by
  have hwf := h.wf j (List.mem_of_getElem? hi)
  have hsuf := Job.suffix_charges_of_getting hwf hp
  have hrej : j.rejected = false := by
    unfold Job.Wf at hwf
    rw [hp] at hwf
    exact hwf.2
  have hone : j.onWorker = 1 := by simp [Job.onWorker, hp]
  cases hn : getStep (fn cur.counter) (s.throttle cur.counter) s.isGc (s.count cur.counter)
      pc with
  | goto pc' =>
    rw [accessGet_of_goto hn]
    exact h.setJob hi rfl ⟨hsuf, hrej⟩ (by rw [hone]; rfl)
  | charge pc' =>
    rw [accessGet_of_charge hn]
    exact h.setJob hi rfl ⟨hsuf, hrej⟩ (by rw [hone]; rfl)
  | ret =>
    rw [accessGet_of_ret hn]
    refine h.setJob hi rfl (Job.wf_startGets rfl (suffix_of_cons hsuf) hrej) ?_
    rw [hone, onWorker_startGets rfl]
    rfl

theorem JobsInv.accessPut {pc : PutPc} (h : JobsInv n s) (hi : s.jobs[i]? = some j)
    (hp : j.phase = .putting cur pc rest) : JobsInv n (s.accessPut i j cur pc rest) := by
  have hwf := h.wf j (List.mem_of_getElem? hi)
  have hsuf := Job.suffix_release_of_putting hwf hp
  have hone : j.onWorker = if j.rejected then 1 else 0 := by simp [Job.onWorker, hp]
  cases hn : putStep (fn cur.counter) (s.throttle cur.counter) s.isGc (s.count cur.counter)
      cur.amount pc with
  | goto pc' =>
    rw [accessPut_of_goto hn]
    exact h.setJob hi rfl hsuf (by rw [hone]; rfl)
  | release =>
    rw [accessPut_of_release hn]
    refine h.setJob hi rfl (Job.wf_startPuts rfl (suffix_of_cons hsuf)) ?_
    have hphase : ({ j with
      phase := startPuts rest
      charged := Function.update j.charged cur.counter false } : Job).phase = startPuts rest := rfl
    have := onWorker_startPuts hphase
    simp only [Job.freesWorker] at this ⊢
    omega
  | ret =>
    rw [accessPut_of_ret hn]
    refine h.setJob hi rfl (Job.wf_startPuts rfl (suffix_of_cons hsuf)) ?_
    have hphase : ({ j with phase := startPuts rest } : Job).phase = startPuts rest := rfl
    have := onWorker_startPuts hphase
    simp only [Job.freesWorker] at this ⊢
    omega

theorem JobsInv.step (h : JobsInv n s) (hs : Step s a t) : JobsInv n t := by
  cases hs with
  | setThrottle _ => exact ⟨h.wf, h.workers⟩
  | setIsGc => exact ⟨h.wf, h.workers⟩
  | dropped => exact h
  | rejected hidle _ =>
    exact h.join rfl (Job.wf_startPuts rfl (List.suffix_refl _)) hidle rfl
  | @accepted _ _ opreq _ hidle _ =>
    have hstart : (acceptedJob opreq.optionType opreq.optionLength).phase =
        startGets (admission opreq.optionType opreq.optionLength) := rfl
    exact h.join rfl (Job.wf_startGets rfl (List.suffix_refl _) rfl) hidle
      (onWorker_startGets hstart)
  | accessGet hi hp => exact h.accessGet hi hp
  | accessPut hi hp => exact h.accessPut hi hp
  | doOneOps hi hp =>
    have hrej := h.wf _ (List.mem_of_getElem? hi)
    unfold Job.Wf at hrej
    rw [hp] at hrej
    exact h.setJob hi rfl hrej (by simp [Job.onWorker, hp])
  | @finishCacheOps i j hi hp =>
    have hrej := h.wf _ (List.mem_of_getElem? hi)
    unfold Job.Wf at hrej
    rw [hp] at hrej
    -- the completion runs on a thread of the core, and not on a worker
    have hzero : ({ j with phase := startPuts (release j.optionType j.optionLength) } :
        Job).onWorker = 0 := onWorker_completing rfl hrej
    refine h.setJob hi rfl (Job.wf_startPuts rfl (List.suffix_refl _)) ?_
    rw [hzero]
    simp [State.setJob, Job.onWorker, hp]

end Jobs

end GcAdaptor.Throttle
