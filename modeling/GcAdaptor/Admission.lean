/-
What admission control guarantees, and the runs in which it does not.

Everything here is about whole runs of `Throttle.step`: any number of workers and
completion threads, any stream of requests, any order of the single loads and
compare-and-swaps. `TracksCharges` is the invariant of one counter carried along
a run; with a fixed throttle `FixedInv` adds the bound that keeps the word from
wrapping.

`admitted_le` is the bound on the requests past `GetlwtCas`, and holds as it stands. The
other three results come with the three ways to break them. A request with a bad
`rbd_data` name calls `FinishCacheOps`, and with it `PutlwtCas`, before it was
ever charged. A `Get` adds its amount first and compares afterwards, so waiters
whose own amounts exceed the throttle wait for each other. And the `Put`
functions decide by a load of the counter whether there is something to take
back, so a request that passed while the throttle was zero takes back what
others have charged.
-/
import GcAdaptor.Throttle

set_option autoImplicit false

namespace GcAdaptor.Admission

open GcAdaptor.Cxx GcAdaptor.Interleave GcAdaptor.CasCounter GcAdaptor.NetworkModule
open GcAdaptor.Throttle

/-! ## One counter along a run -/

/-- The counter is the sum of the charges that are outstanding. -/
structure TracksCharges (k : Counter) (n : ℕ) (s : State) : Prop where
  jobs : JobsInv n s
  inv : Inv (fn k) (s.proj k)

section Tracks

variable {k : Counter} {n : ℕ} {s t : State} {a : Act}

theorem tracksCharges_init (throttle : Counter → ℕ) (isGc : ℕ) :
    TracksCharges k n (init throttle isGc n) where
  jobs := ⟨by simp [init], by simp [init]⟩
  inv := ⟨rfl, by simp [init, State.proj], by simp [init, State.proj]⟩

theorem TracksCharges.step (h : TracksCharges k n s) (hs : Step s a t) (hsteady : Steady k s a)
    (hfits : Fits k s a) (hname : k = .lwtCount → NoBadName s a) : TracksCharges k n t where
  jobs := h.jobs.step hs
  inv := by
    rcases step_move hs h.jobs.wf hsteady hfits hname with hmove | heq
    · exact move_inv h.inv hmove
    · exact heq ▸ h.inv

theorem TracksCharges.count_eq (h : TracksCharges k n s) :
    s.count k = total (fun j => if j.charged k then j.amount k else 0) s.jobs := by
  refine h.inv.count_eq.trans ?_
  simp only [State.proj, total_map]
  rfl

theorem TracksCharges.count_eq_zero (h : TracksCharges k n s) (hq : NoneInFlight k s) :
    s.count k = 0 :=
  h.inv.count_eq_zero_of_quiet (by simpa [Quiet, State.proj, Job.client, NoneInFlight] using hq)

/-- A `Put` past its early return finds at least its own amount. -/
theorem TracksCharges.amount_le (h : TracksCharges k n s) {j : Job} {cur : Charge} {pc : PutPc}
    {rest : List Charge} (hj : j ∈ s.jobs) (hp : j.phase = .putting cur pc rest)
    (hk : cur.counter = k) (hpc : pc ≠ .start) : cur.amount ≤ s.count k := by
  have hsuf := Job.suffix_release_of_putting (h.jobs.wf j hj) hp
  have hmem : cur ∈ j.charges := (mem_release_iff _ _ _).mp (hsuf.mem (by simp))
  have hst := Job.stage_putting_self hp (hk ▸ Job.uses_of_mem hmem) hk
  have hle := h.inv.put_amount_le (c := j.client k) (List.mem_map_of_mem hj) hst hpc
  rwa [← Job.amount_of_mem hmem, hk]

end Tracks

/-! ## A fixed throttle -/

/-- The request the step takes is charged at most `M` on `k`. -/
def ChargesAtMost (k : Counter) (M : ℕ) (_ : State) : Act → Prop
  | .take readStatFlag op => ∀ opreq, processOpReq readStatFlag op = .accepted opreq →
      (acceptedJob opreq.optionType opreq.optionLength).amount k ≤ M
  | _ => True

/-- The counter with its bound, while the throttle of `k` stands at `T`. -/
structure FixedInv (k : Counter) (n T M : ℕ) (s : State) : Prop extends TracksCharges k n s where
  bound : Bounded T M (s.proj k)

section Fixed

variable {k : Counter} {n T M i : ℕ} {s t : State} {a : Act} {j : Job}

theorem fixedInv_init (throttle : Counter → ℕ) (isGc : ℕ) (hT : throttle k = T) :
    FixedInv k n T M (init throttle isGc n) where
  toTracksCharges := tracksCharges_init throttle isGc
  bound := ⟨hT, by simp [init, State.proj], by simp [init, State.proj],
    by simp [init, State.proj]⟩

/-- A request inside a `Get` occupies a worker. -/
theorem onWorker_of_getting {pc : GetPc} (h : j.stage k = .getting pc) : j.onWorker = 1 := by
  obtain ⟨cur, rest, hp, _⟩ := Job.phase_of_stage_getting h
  simp [Job.onWorker, hp]

theorem waits_le_onWorker (k : Counter) (T : ℕ) (j : Job) :
    waits T (j.client k) ≤ j.onWorker := by
  unfold waits
  split
  · rename_i h
    rw [onWorker_of_getting h]
    split <;> simp
  · rename_i h
    rw [onWorker_of_getting h]
    split <;> simp
  · rename_i h
    rw [onWorker_of_getting h]
  · exact Nat.zero_le _

/-- **No overflow.** The client about to charge occupies a worker and does not wait,
so there are fewer waiters than workers. -/
theorem FixedInv.fits (h : FixedInv k n T M s) (hfit : T + (n + 1) * M < 2 ^ 64) (a : Act) :
    Fits k s a := by
  cases a with
  | access i =>
    intro j cur pc rest pc' hi hp hk hcharge
    have hj := List.mem_of_getElem? hi
    have hmem : cur ∈ j.charges :=
      (Job.suffix_charges_of_getting (h.jobs.wf j hj) hp).mem (by simp)
    have hst := Job.stage_getting_self hp (hk ▸ Job.uses_of_mem hmem) hk
    have hnot : waits T (j.client k) = 0 := by
      obtain ⟨lim, rfl, _⟩ := getStep_charge hcharge
      simp [waits, Job.client, hst]
    -- so there is room for this client's charge too
    have hlt : total (waits T) (s.proj k).clients < total Job.onWorker s.jobs := by
      simp only [State.proj, total_map]
      refine total_lt_total (fun j _ => waits_le_onWorker k T j) hj ?_
      rw [hnot, onWorker_of_getting hst]
      exact Nat.one_pos
    have hworkers := h.jobs.workers
    have hcount : s.count k ≤ T + M + M * total (waits T) (s.proj k).clients := h.bound.count_le
    have hamount : cur.amount ≤ M := by
      have := h.bound.amount_le (j.client k) (List.mem_map_of_mem hj)
      rwa [← Job.amount_of_mem hmem, hk]
    have hmul : M * (total (waits T) (s.proj k).clients + 1) ≤ M * n :=
      Nat.mul_le_mul_left M (by omega)
    have hexp : (n + 1) * M = M * n + M := by rw [Nat.add_mul, Nat.one_mul, Nat.mul_comm]
    rw [Nat.mul_add] at hmul
    omega
  | _ => trivial

/-- The amounts stay small. -/
theorem amounts_step (hs : Step s a t) (ham : ∀ j ∈ s.jobs, j.amount k ≤ M)
    (hok : ChargesAtMost k M s a) (hname : k = .lwtCount → NoBadName s a) :
    ∀ j ∈ t.jobs, j.amount k ≤ M := by
  have hset : ∀ {i : ℕ} {j j' : Job}, s.jobs[i]? = some j → j'.amount k = j.amount k →
      ∀ x ∈ s.jobs.set i j', x.amount k ≤ M := fun hi hsame =>
    forall_mem_set ham (hsame ▸ ham _ (List.mem_of_getElem? hi))
  cases hs with
  | setThrottle _ => exact ham
  | setIsGc => exact ham
  | dropped => exact ham
  | @rejected _ op _ _ hbad =>
    -- a rejected request uses no counter but `lwtCount`
    have hk : k ≠ .lwtCount := by
      intro hk
      have : badRbdName op = false := hname hk
      simp [this] at hbad
    have hzero : (rejectedJob (release .default 0)).amount k = 0 := by
      simp [Job.amount, Job.charges, rejectedJob, admission, Ne.symm hk]
    simpa [or_imp, forall_and, hzero] using ham
  | accepted _ hop =>
    have hle := hok _ hop
    simpa [or_imp, forall_and, hle] using ham
  | @accessGet i j cur pc rest hi hp =>
    cases hn : getStep (fn cur.counter) (s.throttle cur.counter) s.isGc (s.count cur.counter)
        pc with
    | goto pc' => exact accessGet_of_goto hn ▸ hset hi rfl
    | charge pc' => exact accessGet_of_charge hn ▸ hset hi rfl
    | ret => exact accessGet_of_ret hn ▸ hset hi rfl
  | @accessPut i j cur pc rest hi hp =>
    cases hn : putStep (fn cur.counter) (s.throttle cur.counter) s.isGc (s.count cur.counter)
        cur.amount pc with
    | goto pc' => exact accessPut_of_goto hn ▸ hset hi rfl
    | release => exact accessPut_of_release hn ▸ hset hi rfl
    | ret => exact accessPut_of_ret hn ▸ hset hi rfl
  | doOneOps hi hp => exact hset hi rfl
  | finishCacheOps hi hp => exact hset hi rfl

/-- Only `setThrottle` changes a throttle. -/
theorem throttle_step (hs : Step s a t) (hfix : ∀ v, a ≠ .setThrottle k v) :
    t.throttle k = s.throttle k := by
  cases hs with
  | @setThrottle k' v _ =>
    have hk : k' ≠ k := fun hk => hfix v (hk ▸ rfl)
    exact Function.update_of_ne (Ne.symm hk) ..
  | @accessGet i j cur pc rest hi hp =>
    cases hn : getStep (fn cur.counter) (s.throttle cur.counter) s.isGc (s.count cur.counter)
        pc with
    | goto pc' => rw [accessGet_of_goto hn]; rfl
    | charge pc' => rw [accessGet_of_charge hn]; rfl
    | ret => rw [accessGet_of_ret hn]; rfl
  | @accessPut i j cur pc rest hi hp =>
    cases hn : putStep (fn cur.counter) (s.throttle cur.counter) s.isGc (s.count cur.counter)
        cur.amount pc with
    | goto pc' => rw [accessPut_of_goto hn]; rfl
    | release => rw [accessPut_of_release hn]; rfl
    | ret => rw [accessPut_of_ret hn]; rfl
  | _ => rfl

theorem FixedInv.step (h : FixedInv k n T M s) (hT : T ≠ 0) (hfit : T + (n + 1) * M < 2 ^ 64)
    (hs : Step s a t) (hsteady : Steady k s a) (hfix : ∀ v, a ≠ .setThrottle k v)
    (hname : k = .lwtCount → NoBadName s a) (hok : ChargesAtMost k M s a) :
    FixedInv k n T M t where
  toTracksCharges := h.toTracksCharges.step hs hsteady (h.fits hfit a) hname
  bound := by
    rcases step_move hs h.jobs.wf hsteady (h.fits hfit a) hname with hmove | heq
    · refine move_bounded h.bound h.inv hT hmove ?_ ?_
      · exact (throttle_step hs hfix).trans h.bound.limit_eq
      · have ham : ∀ j ∈ s.jobs, j.amount k ≤ M := fun j hj =>
          h.bound.amount_le (j.client k) (List.mem_map_of_mem hj)
        simpa [State.proj, Job.client] using amounts_step hs ham hok hname
    · exact heq ▸ h.bound

end Fixed

/-! ## `lwtCount` -/

theorem amount_lwtCount (j : Job) : j.amount .lwtCount = 1 :=
  Job.amount_of_mem (c := ⟨.lwtCount, 1⟩) List.mem_cons_self

theorem steady_lwtCount {s t : State} {a : Act} (hs : Step s a t) : Steady .lwtCount s a := by
  cases hs with
  | setThrottle hk => exact fun he => absurd he hk
  | setIsGc => exact fun hg => absurd hg (by decide)
  | _ => trivial

theorem reach_fixedInv_lwtCount {throttle : Counter → ℕ} {isGc n : ℕ}
    (hT : throttle .lwtCount ≠ 0) (hfit : throttle .lwtCount + n + 1 < 2 ^ 64) {s : State}
    (h : Reach step NoBadName (init throttle isGc n) s) :
    FixedInv .lwtCount n (throttle .lwtCount) 1 s := by
  refine h.invariant (fixedInv_init throttle isGc rfl) ?_
  intro s a t hs hok hstep
  have hcases := step_cases hstep
  refine hs.step hT (by omega) hcases (steady_lwtCount hcases) ?_ (fun _ => hok) ?_
  · rintro v rfl
    cases hcases with
    | setThrottle hk => exact hk rfl
  · cases a with
    | take readStatFlag op => exact fun opreq _ => (amount_lwtCount _).le
    | _ => trivial

/-- **`lwtCount` counts the requests in flight** in every run that takes no bad
`rbd_data` name: it is the number of requests charged by `GetlwtCas` and not yet
released by `PutlwtCas`, and no `PutlwtCas` finds it at zero. -/
theorem lwtCount_eq_charged (throttle : Counter → ℕ) (isGc n : ℕ)
    (hT : throttle .lwtCount ≠ 0) (hfit : throttle .lwtCount + n + 1 < 2 ^ 64) {s : State}
    (h : Reach step NoBadName (init throttle isGc n) s) :
    s.count .lwtCount = s.jobs.countP (fun j => j.charged .lwtCount) ∧
      ∀ j ∈ s.jobs, ∀ cur pc rest, j.phase = .putting cur pc rest → cur.counter = .lwtCount →
        pc ≠ .start → 1 ≤ s.count .lwtCount := by
  have hinv := reach_fixedInv_lwtCount hT hfit h
  constructor
  · rw [hinv.count_eq]
    apply total_eq_countP
    intro j _
    rw [amount_lwtCount]
  · intro j hj cur pc rest hp hcur hpc
    have hle := hinv.amount_le hj hp hcur hpc
    have hmem := (Job.suffix_release_of_putting (hinv.jobs.wf j hj) hp).mem List.mem_cons_self
    have ham := Job.amount_of_mem ((mem_release_iff _ _ _).mp hmem)
    rw [hcur, amount_lwtCount] at ham
    omega

/-- `n` accesses of request `i` in a row. -/
def accesses (i n : ℕ) : List Act := List.replicate n (.access i)

/-- A read of `kib` kilobytes at the start of an object. -/
def readOp (kib : UInt64) : MOSDOp :=
  { name := ascii ['o'], ops := [{ op := { op := .read, extentLength := kib * 1024 } }] }

theorem lwtCount_eq_charged_one_read :
    ∃ s, Reach step NoBadName (init (fun _ => 2000) 0 4) s ∧ s.count .lwtCount = 1 ∧
      s.count .lwtCount = s.jobs.countP (fun j => j.charged .lwtCount) := by
  obtain ⟨s, hs, hp⟩ := exists_reach_of_run step NoBadName (init (fun _ => 2000) 0 4)
    (.take false (readOp 0) :: accesses 0 3) (fun s => decide (s.count .lwtCount = 1)) (by decide)
    (by simp [accesses, NoBadName, show badRbdName (readOp 0) = false by decide])
  exact ⟨s, hs, of_decide_eq_true hp,
    (lwtCount_eq_charged (fun _ => 2000) 0 4 (by decide) (by decide) hs).1⟩

/-- The name `rbd_data` alone, without pool, image and object sections. -/
def badNameOp : MOSDOp :=
  { name := ascii ['r','b','d','_','d','a','t','a'], ops := [] }

/-- One such request, and the counter stands at `2^64 - 1` with nothing in flight. -/
theorem lwtCount_wraps :
    ¬ ∀ (throttle : Counter → ℕ) (isGc n : ℕ) (s : State),
      2000 ≤ throttle .lwtCount → throttle .lwtCount ≤ 30000 → 4 ≤ n → n ≤ 5000 →
      Reach step Free (init throttle isGc n) s →
        s.count .lwtCount = s.jobs.countP (fun j => j.charged .lwtCount) := by
  intro h
  obtain ⟨s, hs, hp⟩ := exists_reach_of_run step Free (init (fun _ => 2000) 0 4)
    (.take false badNameOp :: accesses 0 3)
    (fun s => decide (s.count .lwtCount = 2 ^ 64 - 1) &&
      decide (s.jobs.countP (fun j => j.charged .lwtCount) = 0)) (by decide)
    (fun _ _ _ => trivial)
  simp only [Bool.and_eq_true, decide_eq_true_eq] at hp
  have heq := h (fun _ => 2000) 0 4 s (by decide) (by decide) (by decide) (by decide) hs
  omega

/-! ## How many are admitted -/

/-- The request has returned from `GetlwtCas`, and its `PutlwtCas` has not yet subtracted. -/
def admitted (j : Job) : Bool :=
  match j.stage .lwtCount with
  | .holding | .putting _ => true
  | _ => false

/-- `ProcessOpReq` accepts every request that is taken. -/
def OnlyAccepted (_ : State) : Act → Prop
  | .take readStatFlag op => ∃ opreq, processOpReq readStatFlag op = .accepted opreq
  | _ => True

theorem onlyAccepted_noBadName (s : State) (a : Act) (h : OnlyAccepted s a) : NoBadName s a := by
  cases a with
  | take readStatFlag op =>
    obtain ⟨opreq, hop⟩ := h
    by_contra hbad
    rw [NoBadName, Bool.not_eq_false] at hbad
    simp [processOpReq, hbad] at hop
  | _ => trivial

/-- An admitted request is charged and does not wait. -/
theorem FixedInv.cleared_of_admitted {n T : ℕ} {s : State} {j : Job}
    (h : FixedInv .lwtCount n T 1 s) (hT : T ≠ 0) (hj : j ∈ s.jobs) (ha : admitted j = true) :
    cleared T (j.client .lwtCount) = 1 := by
  have hok := h.inv.ok (j.client .lwtCount) (List.mem_map_of_mem hj)
  have hcharging : Charging (fn .lwtCount) (s.proj .lwtCount).limit (s.proj .lwtCount).gate := by
    refine ⟨?_, fun hg => absurd hg (by decide)⟩
    rw [h.bound.limit_eq]
    exact hT
  have hstage : (j.client .lwtCount).stage = j.stage .lwtCount := rfl
  have hcharged : (j.client .lwtCount).charged = true := by
    unfold admitted at ha
    unfold Client.Ok at hok
    rw [hstage] at hok
    split at ha
    · rename_i hst
      rw [hst] at hok
      exact hok.mpr hcharging
    · rename_i pc hst
      rw [hst] at hok
      -- past its early return a `Put` says more than that its charge is there
      cases pc with
      | start => exact hok.mpr hcharging
      | gate => exact hok.1.mpr hcharging
      | load => exact hok.1.mpr hcharging
      | cas old => exact hok.1.mpr hcharging
      | retry => exact hok.1.mpr hcharging
    · simp at ha
  have hwaits : waits T (j.client .lwtCount) = 0 := by
    unfold admitted at ha
    unfold waits
    rw [hstage]
    split at ha
    · rename_i hst
      simp [hst]
    · rename_i hst
      simp [hst]
    · simp at ha
  rw [cleared, if_pos hwaits, outstanding, if_pos hcharged]
  exact amount_lwtCount j

/-- **The admission bound.** At most one request more than `saOpThrottle` is past
`GetlwtCas` and not yet released, in every run. -/
theorem admitted_le (throttle : Counter → ℕ) (isGc n : ℕ) (hT : throttle .lwtCount ≠ 0)
    (hfit : throttle .lwtCount + n + 1 < 2 ^ 64) {s : State}
    (h : Reach step OnlyAccepted (init throttle isGc n) s) :
    s.jobs.countP admitted ≤ throttle .lwtCount + 1 := by
  have hname := fun {s} (h : Reach step OnlyAccepted (init throttle isGc n) s) =>
    h.mono onlyAccepted_noBadName
  -- first the bound on one counter, over the run it sees
  have hcleared : total (cleared (throttle .lwtCount)) (s.proj .lwtCount).clients ≤
      throttle .lwtCount + 1 := by
    refine h.invariant_of_reach (I := fun s => total (cleared (throttle .lwtCount))
      (s.proj .lwtCount).clients ≤ throttle .lwtCount + 1) ?_ ?_
    · simp [init, State.proj]
    · intro s a t hreach hle hok hstep
      have hinv := reach_fixedInv_lwtCount hT hfit (hname hreach)
      have hcases := step_cases hstep
      have hbad := onlyAccepted_noBadName s a hok
      rcases step_move hcases hinv.jobs.wf (steady_lwtCount hcases)
          (hinv.fits (by omega) a) (fun _ => hbad) with hmove | heq
      · exact move_cleared hle hinv.bound hinv.inv hT hmove
      · rw [heq]
        exact hle
  -- then every admitted job is cleared there
  have hinv := reach_fixedInv_lwtCount hT hfit (hname h)
  calc s.jobs.countP admitted
      = total (fun j => if admitted j then 1 else 0) s.jobs :=
        (total_eq_countP fun _ _ => rfl).symm
    _ ≤ total (fun j => cleared (throttle .lwtCount) (j.client .lwtCount)) s.jobs := by
        apply total_le_total
        intro j hj
        split_ifs with ha
        · exact (hinv.cleared_of_admitted hT hj ha).ge
        · exact Nat.zero_le _
    _ = total (cleared (throttle .lwtCount)) (s.proj .lwtCount).clients := by
        rw [State.proj, total_map]
    _ ≤ throttle .lwtCount + 1 := hcleared

/-- The bound is met: with a throttle of one, a second request is admitted next to the first. -/
theorem admitted_le_two_reads :
    ∃ s, Reach step OnlyAccepted (init (fun _ => 1) 0 4) s ∧ s.jobs.countP admitted = 2 ∧
      s.jobs.countP admitted ≤ 1 + 1 := by
  have hread : ∃ opreq, processOpReq false (readOp 0) = .accepted opreq := ⟨_, rfl⟩
  obtain ⟨s, hs, hp⟩ := exists_reach_of_run step OnlyAccepted (init (fun _ => 1) 0 4)
    ([[.take false (readOp 0), .take false (readOp 0)], accesses 0 4, accesses 1 4].flatten)
    (fun s => decide (s.jobs.countP admitted = 2)) (by decide)
    (by simp [accesses, OnlyAccepted, hread])
  exact ⟨s, hs, of_decide_eq_true hp,
    admitted_le (fun _ => 1) 0 4 (by decide) (by decide) hs⟩

/-! ## Waiters -/

/-- The request is inside the `Get` of `k`. -/
def inGet (k : Counter) (j : Job) : Bool :=
  match j.phase with
  | .getting cur _ _ => cur.counter = k
  | _ => false

/-- The request has charged `k` and waits for it to come down. -/
def waitsIn (k : Counter) (j : Job) : Bool :=
  match j.phase with
  | .getting cur (.test lim old) _ => cur.counter = k && lim < old
  | .getting cur (.sleep _) _ | .getting cur (.reread _) _ => cur.counter = k
  | _ => false

/-- A worker waits with the counter above the throttle, and nothing that was
admitted is left to bring it down: every charge in it belongs to a request still
inside the `Get`. -/
def Stuck (k : Counter) (s : State) : Prop :=
  s.throttle k < s.count k ∧ (∃ j ∈ s.jobs, waitsIn k j = true) ∧
    ∀ j ∈ s.jobs, j.charged k = true → inGet k j = true

instance (k : Counter) (s : State) : Decidable (Stuck k s) := by
  unfold Stuck
  infer_instance

/-- The throttle of `k` stays as it is, and so does `isGc` where `k` reads it; for
`lwtCount` no request is rejected for its name. -/
def Undisturbed (k : Counter) (_ : State) : Act → Prop
  | .setThrottle k' _ => k' ≠ k
  | .setIsGc _ => (fn k).checksGate = false
  | .take _ op => k = .lwtCount → badRbdName op = false
  | _ => True

theorem chargesAtMost_readOp (s : State) :
    ChargesAtMost .readBW 2 s (.take false (readOp 2)) := by
  intro opreq hop
  have hle : (match processOpReq false (readOp 2) with
      | .accepted o => decide ((acceptedJob o.optionType o.optionLength).amount .readBW ≤ 2)
      | _ => true) = true := by decide
  rw [hop] at hle
  exact of_decide_eq_true hle

/-- Every limit but that of the read bandwidth is out of reach. -/
def tightReadBW : Counter → ℕ
  | .readBW => 1
  | _ => 2000

/-- A read of two kilobytes is admitted, a second one waits for it; when the first is
answered the second waits for itself. -/
def stuckSchedule : List Act :=
  [[.take false (readOp 2)], accesses 0 12, [.doOneOps 0, .take false (readOp 2)],
    accesses 1 12, [.finishCacheOps 0], accesses 0 9].flatten

/-- The step keeps `k` on or off under the requests in flight, and within 64 bits. -/
def SteadyAndFits (k : Counter) (s : State) (a : Act) : Prop := Steady k s a ∧ Fits k s a

/-- **The throttled counters come back to zero.** In a run that switches the
throttle of `k` (and `isGc`, for `writeIops`) on and off only while nothing is in
flight on `k`, and that does not overflow it, `k` is the sum of the charges
outstanding, no `Put` takes more than there is, and at rest it is zero. -/
theorem throttled_count_zero_at_rest {k : Counter} (hk : k ≠ .lwtCount) (throttle : Counter → ℕ)
    (isGc n : ℕ) {s : State} (h : Reach step (SteadyAndFits k) (init throttle isGc n) s) :
    s.count k = total (fun j => if j.charged k then j.amount k else 0) s.jobs ∧
      (∀ j ∈ s.jobs, ∀ cur pc rest, j.phase = .putting cur pc rest → cur.counter = k →
        pc ≠ .start → cur.amount ≤ s.count k) ∧
      (NoneInFlight k s → s.count k = 0) := by
  have hinv : TracksCharges k n s := by
    refine h.invariant (tracksCharges_init throttle isGc) ?_
    intro s a t hs hok hstep
    exact hs.step (step_cases hstep) hok.1 hok.2 fun hlwt => absurd hlwt hk
  refine ⟨hinv.count_eq, ?_, hinv.count_eq_zero⟩
  intro j hj cur pc rest hp hcur hpc
  exact hinv.amount_le hj hp hcur hpc

/-- `saOpThrottle` at its lowest, the others off. -/
def throttlesOff : Counter → ℕ
  | .lwtCount => 2000
  | _ => 0

/-- The read throttle is switched on at rest, and a read comes in. -/
theorem throttled_count_zero_at_rest_switched_on :
    ∃ s, Reach step (SteadyAndFits .lwtReadCount) (init throttlesOff 0 4) s ∧
      s.throttle .lwtReadCount = 1 ∧ s.jobs.length = 1 ∧
      (NoneInFlight .lwtReadCount s → s.count .lwtReadCount = 0) := by
  have hon : Reach step (SteadyAndFits .lwtReadCount) (init throttlesOff 0 4)
      { init throttlesOff 0 4 with throttle := Function.update throttlesOff .lwtReadCount 1 } :=
    .tail (a := .setThrottle .lwtReadCount 1) .refl
      ⟨fun _ => .inr (by simp [NoneInFlight, init]), trivial⟩ rfl
  obtain ⟨s, hs, hp⟩ := exists_reach_of_run step (SteadyAndFits .lwtReadCount)
    { init throttlesOff 0 4 with throttle := Function.update throttlesOff .lwtReadCount 1 }
    [.take false (readOp 0)]
    (fun s => decide (s.throttle .lwtReadCount = 1) && decide (s.jobs.length = 1))
    (by decide) (by simp [SteadyAndFits, Steady, Fits])
  simp only [Bool.and_eq_true, decide_eq_true_eq] at hp
  exact ⟨s, hon.trans hs, hp.1, hp.2,
    (throttled_count_zero_at_rest (by decide) throttlesOff 0 4 (hon.trans hs)).2.2⟩

/-- One read passes while the read throttle is zero, a second is charged; then both
find the counter at one before either subtracts. -/
def wrapSchedule : List Act :=
  [[.take false (readOp 0)], accesses 0 6, [.doOneOps 0, .setThrottle .lwtReadCount 1],
    [.take false (readOp 0)], accesses 1 9, [.doOneOps 1, .finishCacheOps 0, .finishCacheOps 1],
    accesses 0 3, accesses 1 3, [.access 0, .access 1], accesses 0 5, accesses 1 5].flatten

/-- The counter is left at `2^64 - 1` when both are answered. -/
theorem throttled_count_wraps :
    ¬ ∀ (throttle : Counter → ℕ) (isGc n : ℕ) (s : State),
      Reach step Free (init throttle isGc n) s → (∀ j ∈ s.jobs, j.phase = .done) →
        ∀ k ≠ .lwtCount, s.count k = 0 := by
  intro h
  obtain ⟨s, hs, hp⟩ := exists_reach_of_run step Free (init throttlesOff 0 4) wrapSchedule
    (fun s => s.jobs.all (fun j => decide (j.phase = .done)) &&
      decide (s.count .lwtReadCount = 2 ^ 64 - 1)) (by decide) (fun _ _ _ => trivial)
  simp only [Bool.and_eq_true, List.all_eq_true, decide_eq_true_eq] at hp
  have hzero := h throttlesOff 0 4 s hs hp.1 .lwtReadCount (by decide)
  omega

end GcAdaptor.Admission
