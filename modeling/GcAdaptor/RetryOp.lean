/-
The client's retry containers.

`Objecter::_op_submit` does not send an op whose partition is not OK: it hangs the op on
`hangon_retry_submit_ops`. `handle_osd_op_reply` puts an op that the server refused with a
retryable error into `op_waiting_for_retry[p]`. When CCM reports that partitions have become
OK, `CcmPtChangeNotify` runs `retry_op_submit`: it takes the queues of the named partitions,
submits their ops, sweeps the hang-on list for ops whose partition is OK now, and submits
those. Nothing else ever empties the two containers.

The status is read before `retrylock` is taken, and CCM changes it under no lock of the
client. An op is lost when the notification that would release it has come and gone between
the test and the push; on the reply path there is no test at all.

The threads move in any order here, one access to shared memory at a time.
`PushesInTime` says of a push that the partition is still not OK, or that a callback which
will look at the container is still to come; `retry_loses_nothing` is that no op is lost in a
run whose pushes all are, and that no run at all has an op in two places.
-/
import GcAdaptor.Interleave
import Mathlib.Data.List.Basic

set_option autoImplicit false

namespace GcAdaptor.RetryOp

open GcAdaptor.Interleave

/-! ## The state -/

abbrev Op := ℕ

/-- A partition of a Global Cache cluster. -/
structure Pt where
  clusterId : ℕ
  ptId : ℕ
  deriving DecidableEq

/-- `PTViewPtEntry`; `ok` is `state == CCM_PT_STATE_OK` when CCM made the entry. -/
structure PtEntry where
  pt : Pt
  ok : Bool

/-- Where a call of `_op_submit` stands. -/
inductive SubmitPc
  /-- before `_calc_pt_target`; `again` after the relock -/
  | target (again : Bool)
  /-- `pt_stat` came back false -/
  | hang
  /-- `pt_stat` came back true: `_get_session`, then `_session_op_assign` -/
  | session (again : Bool)
  deriving DecidableEq

/-- A thread inside the functions of this file. -/
inductive Thread
  | submit (op : Op) (pc : SubmitPc)
  /-- `handle_osd_op_reply`, the op off its session and not yet queued -/
  | reply (op : Op)
  /-- `retry_op_submit(ready_pt_id)` before the first critical section -/
  | start (readyPtId : List ℕ)
  /-- one of its two submission loops: the call it is in and the ops that are left -/
  | resend (current : Option (Op × SubmitPc)) (left : List Op) (swept : Bool)
  /-- the sweep, at index `k` of the hang-on list, with the ops it has taken -/
  | sweep (k : ℕ) (opQueue : List Op)
  | done
  deriving DecidableEq

structure State where
  /-- `get_pt_status` -/
  status : Pt → Bool
  /-- changes to OK that CCM has not reported yet -/
  pending : List Pt := []
  /-- the ops of all sessions -/
  session : List Op := []
  /-- `hangon_retry_submit_ops` -/
  hangon : List Op := []
  /-- `op_waiting_for_retry`: the queues with their keys, in one list -/
  waiting : List (ℕ × Op) := []
  retrylock : Bool := false
  threads : List Thread := []

/-- The ops a thread holds in its local variables. -/
def Thread.ops : Thread → List Op
  | .submit op _ | .reply op => [op]
  | .resend (some (op, _)) left _ => op :: left
  | .resend none left _ => left
  | .sweep _ opQueue => opQueue
  | .start _ | .done => []

/-- How often an op occurs in the containers. -/
def State.stored (s : State) (op : Op) : ℕ :=
  s.session.count op + s.hangon.count op + (s.waiting.map (·.2)).count op

/-- How often an op occurs at all. -/
def State.copies (s : State) (op : Op) : ℕ :=
  s.stored op + total (fun th => th.ops.count op) s.threads

/-! ## The functions -/

section Step

variable (ptOf : Op → Pt)

/-- One step of `_op_submit`. `race`: the relock raced with a new map. -/
def submitStep (s : State) (op : Op) (race : Bool) : SubmitPc → Option (State × Option SubmitPc)
  | .target again => some (s, some (if s.status (ptOf op) then .session again else .hang))
  | .hang =>
    if s.retrylock then none else some ({ s with hangon := s.hangon ++ [op] }, none)
  | .session again =>
    if race ∧ again = false then some (s, some (.target true))
    else some ({ s with session := s.session ++ [op] }, none)

/-- The loop over `ready_pt_id`: the ops of the queues it finds, and the queues it leaves. -/
def takeReady : List ℕ → List (ℕ × Op) → List Op × List (ℕ × Op)
  | [], waiting => ([], waiting)
  | p :: ps, waiting =>
    let (dealOp, left) := takeReady ps (waiting.filter fun e => e.1 ≠ p)
    ((waiting.filter fun e => e.1 = p).map (·.2) ++ dealOp, left)

def threadStep (s : State) (race : Bool) : Thread → Option (State × Thread)
  | .submit op pc => do
    let (t, pc) ← submitStep ptOf s op race pc
    return (t, match pc with | some pc => .submit op pc | none => .done)
  | .reply op =>
    if s.retrylock then none
    else some ({ s with waiting := s.waiting ++ [((ptOf op).ptId, op)] }, .done)
  | .start readyPtId =>
    if s.retrylock then none
    else
      let (dealOp, left) := takeReady readyPtId s.waiting
      some ({ s with waiting := left }, .resend none dealOp false)
  | .resend (some (op, pc)) left swept => do
    let (t, pc) ← submitStep ptOf s op race pc
    return (t, .resend (pc.map fun pc => (op, pc)) left swept)
  | .resend none (op :: left) swept => some (s, .resend (some (op, .target false)) left swept)
  | .resend none [] false =>
    if s.retrylock then none else some ({ s with retrylock := true }, .sweep 0 [])
  | .resend none [] true => some (s, .done)
  | .sweep k opQueue =>
    -- the loop over `hangon_retry_submit_ops`: each op's partition is read in its turn
    match s.hangon[k]? with
    | some op =>
      if s.status (ptOf op) then
        some ({ s with hangon := s.hangon.eraseIdx k }, .sweep k (opQueue ++ [op]))
      else some (s, .sweep (k + 1) opQueue)
    | none => some ({ s with retrylock := false }, .resend none opQueue true)
  | .done => none

inductive Act
  /-- a new op -/
  | opSubmit (op : Op)
  /-- a reply that finishes an op -/
  | finish (op : Op)
  /-- a reply with a retryable error -/
  | errorReply (op : Op)
  | setPt (p : Pt) (ok : Bool)
  /-- CCM calls `CcmPtChangeNotify` -/
  | notify (entries : List PtEntry)
  /-- thread `i` moves -/
  | move (i : ℕ) (race : Bool)

/-- The partitions `CcmPtChangeNotify` picks. -/
def normalPt (entries : List PtEntry) : List Pt := (entries.filter (·.ok)).map (·.pt)

def step (s : State) : Act → Option State
  | .opSubmit op =>
    if s.copies op = 0 then some { s with threads := s.threads ++ [.submit op (.target false)] }
    else none
  | .finish op =>
    if op ∈ s.session then some { s with session := s.session.erase op } else none
  | .errorReply op =>
    if op ∈ s.session then
      some { s with session := s.session.erase op, threads := s.threads ++ [.reply op] }
    else none
  | .setPt p ok =>
    if s.status p = ok then none
    else some { s with
      status := Function.update s.status p ok
      pending := if ok then s.pending ++ [p] else s.pending }
  | .notify entries =>
    -- each change to OK is reported once
    if (normalPt entries).diff s.pending ≠ [] then none
    else if normalPt entries = [] then some s
    else some { s with
      pending := s.pending.diff (normalPt entries)
      threads := s.threads ++ [.start ((normalPt entries).map (·.ptId))] }
  | .move i race => do
    let th ← s.threads[i]?
    let (t, th') ← threadStep ptOf s race th
    return { t with threads := t.threads.set i th' }

end Step

/-! ## What is claimed -/

/-- No notification is pending and no thread is inside these functions. -/
def Quiescent (s : State) : Prop := s.pending = [] ∧ ∀ th ∈ s.threads, th = .done

instance (s : State) : Decidable (Quiescent s) := by
  unfold Quiescent
  infer_instance

/-- No op lies in a container although its partition is OK. -/
def NoneLost (ptOf : Op → Pt) (s : State) : Prop :=
  (∀ op ∈ s.hangon, s.status (ptOf op) = false) ∧
    ∀ e ∈ s.waiting, s.status (ptOf e.2) = false

instance (ptOf : Op → Pt) (s : State) : Decidable (NoneLost ptOf s) := by
  unfold NoneLost
  infer_instance

/-- No op is in two of the session, the hang-on list and the queues, or twice in one. -/
def NotInTwo (s : State) : Prop := ∀ op, s.stored op ≤ 1

/-- The thread is a callback that has still to look at index `j` of the hang-on list. -/
def Thread.willSweep (j : ℕ) : Thread → Bool
  | .start _ | .resend _ _ false => true
  | .sweep k _ => k ≤ j
  | _ => false

/-- The thread is a callback that has still to take queue `key`. -/
def Thread.willTake (key : ℕ) : Thread → Bool
  | .start readyPtId => key ∈ readyPtId
  | _ => false

/-- Some notification has still to look at index `j` of the hang-on list. -/
def sweepComing (s : State) (j : ℕ) : Bool :=
  !s.pending.isEmpty || s.threads.any (·.willSweep j)

/-- Some notification has still to take queue `key`. -/
def takeComing (s : State) (key : ℕ) : Bool :=
  s.pending.any (·.ptId = key) || s.threads.any (·.willTake key)

/-- The thread is about to push this op onto the hang-on list. -/
def Thread.hanging : Thread → Option Op
  | .submit op .hang | .resend (some (op, .hang)) _ _ => some op
  | _ => none

/-- The thread is about to push this op onto a queue. -/
def Thread.queueing : Thread → Option Op
  | .reply op => some op
  | _ => none

/-- A push finds the partition of the op not OK, or a notification still to come for the
container. -/
def pushesInTime (ptOf : Op → Pt) (s : State) : Act → Bool
  | .move i _ =>
    s.threads[i]?.all fun th =>
      (th.hanging.all fun op => !s.status (ptOf op) || sweepComing s s.hangon.length) &&
        th.queueing.all fun op => !s.status (ptOf op) || takeComing s (ptOf op).ptId
  | _ => true

/-- The condition on a step. -/
def PushesInTime (ptOf : Op → Pt) (s : State) (a : Act) : Prop := pushesInTime ptOf s a = true

/-! ## What a thread can do -/

/-- The steps of `_op_submit`. -/
inductive Submit (ptOf : Op → Pt) (s : State) (op : Op) :
    SubmitPc → State → Option SubmitPc → Prop
  | internal {pc pc' : SubmitPc} : Submit ptOf s op pc s (some pc')
  | hang (hlock : s.retrylock = false) :
      Submit ptOf s op .hang { s with hangon := s.hangon ++ [op] } none
  | assign {again : Bool} :
      Submit ptOf s op (.session again) { s with session := s.session ++ [op] } none

theorem submit_of_step {ptOf : Op → Pt} {s t : State} {op : Op} {race : Bool} {pc : SubmitPc}
    {pc' : Option SubmitPc} (h : submitStep ptOf s op race pc = some (t, pc')) :
    Submit ptOf s op pc t pc' := by
  cases pc with
  | target again =>
    cases h
    exact .internal
  | hang =>
    simp only [submitStep] at h
    split_ifs at h with hlock
    cases h
    exact .hang (by simpa using hlock)
  | session again =>
    simp only [submitStep] at h
    split_ifs at h with hrace
    · cases h
      exact .internal
    · cases h
      exact .assign

/-- The steps of a thread. -/
inductive Run (ptOf : Op → Pt) (s : State) : Thread → State → Thread → Prop
  | submit {op : Op} {pc pc' : SubmitPc} {t : State} (h : Submit ptOf s op pc t (some pc')) :
      Run ptOf s (.submit op pc) t (.submit op pc')
  | submitted {op : Op} {pc : SubmitPc} {t : State} (h : Submit ptOf s op pc t none) :
      Run ptOf s (.submit op pc) t .done
  | queue {op : Op} :
      Run ptOf s (.reply op) { s with waiting := s.waiting ++ [((ptOf op).ptId, op)] } .done
  | take {readyPtId : List ℕ} :
      Run ptOf s (.start readyPtId) { s with waiting := (takeReady readyPtId s.waiting).2 }
        (.resend none (takeReady readyPtId s.waiting).1 false)
  | resend {op : Op} {pc : SubmitPc} {pc' : Option SubmitPc} {left : List Op} {swept : Bool}
      {t : State} (h : Submit ptOf s op pc t pc') :
      Run ptOf s (.resend (some (op, pc)) left swept) t
        (.resend (pc'.map fun pc => (op, pc)) left swept)
  | next {op : Op} {left : List Op} {swept : Bool} :
      Run ptOf s (.resend none (op :: left) swept) s (.resend (some (op, .target false)) left swept)
  | lock (hlock : s.retrylock = false) :
      Run ptOf s (.resend none [] false) { s with retrylock := true } (.sweep 0 [])
  | finish : Run ptOf s (.resend none [] true) s .done
  | sweepOk {k : ℕ} {opQueue : List Op} {op : Op} (hk : s.hangon[k]? = some op) :
      Run ptOf s (.sweep k opQueue) { s with hangon := s.hangon.eraseIdx k }
        (.sweep k (opQueue ++ [op]))
  | sweepNot {k : ℕ} {opQueue : List Op} {op : Op} (hk : s.hangon[k]? = some op)
      (hnot : s.status (ptOf op) = false) :
      Run ptOf s (.sweep k opQueue) s (.sweep (k + 1) opQueue)
  | unlock {k : ℕ} {opQueue : List Op} (hk : s.hangon[k]? = none) :
      Run ptOf s (.sweep k opQueue) { s with retrylock := false } (.resend none opQueue true)

theorem run_of_threadStep {ptOf : Op → Pt} {s t : State} {race : Bool} {th th' : Thread}
    (h : threadStep ptOf s race th = some (t, th')) : Run ptOf s th t th' := by
  cases th with
  | submit op pc =>
    simp only [threadStep, Option.bind_eq_bind, Option.bind_eq_some_iff] at h
    obtain ⟨⟨u, pc'⟩, hsub, hret⟩ := h
    cases pc' with
    | none =>
      cases hret
      exact .submitted (submit_of_step hsub)
    | some pc' =>
      cases hret
      exact .submit (submit_of_step hsub)
  | reply op =>
    simp only [threadStep] at h
    split_ifs at h
    cases h
    exact .queue
  | start readyPtId =>
    simp only [threadStep] at h
    split_ifs at h
    cases h
    exact .take
  | resend current left swept =>
    rcases current with _ | ⟨op, pc⟩
    · cases left with
      | cons op left =>
        cases h
        exact .next
      | nil =>
        -- the first list is done: the sweep comes next, and after it the end
        cases swept with
        | true =>
          cases h
          exact .finish
        | false =>
          simp only [threadStep] at h
          split_ifs at h with hlock
          cases h
          exact .lock (by simpa using hlock)
    · simp only [threadStep, Option.bind_eq_bind, Option.bind_eq_some_iff] at h
      obtain ⟨⟨u, pc'⟩, hsub, hret⟩ := h
      cases hret
      exact .resend (submit_of_step hsub)
  | sweep k opQueue =>
    simp only [threadStep] at h
    cases hk : s.hangon[k]? with
    | none =>
      simp only [hk] at h
      cases h
      exact .unlock hk
    | some op =>
      simp only [hk] at h
      split_ifs at h with hstatus
      · cases h
        exact .sweepOk hk
      · cases h
        exact .sweepNot hk (by simpa using hstatus)
  | done => cases h

/-- The steps of the system. -/
inductive Moves (ptOf : Op → Pt) (s : State) : Act → State → Prop
  | opSubmit {op : Op} (hnew : s.copies op = 0) :
      Moves ptOf s (.opSubmit op) { s with threads := s.threads ++ [.submit op (.target false)] }
  | finish {op : Op} (hmem : op ∈ s.session) :
      Moves ptOf s (.finish op) { s with session := s.session.erase op }
  | errorReply {op : Op} (hmem : op ∈ s.session) :
      Moves ptOf s (.errorReply op)
        { s with session := s.session.erase op, threads := s.threads ++ [.reply op] }
  | setPt {p : Pt} {ok : Bool} :
      Moves ptOf s (.setPt p ok) { s with
        status := Function.update s.status p ok
        pending := if ok then s.pending ++ [p] else s.pending }
  | ignore {entries : List PtEntry} : Moves ptOf s (.notify entries) s
  | notify {entries : List PtEntry} :
      Moves ptOf s (.notify entries) { s with
        pending := s.pending.diff (normalPt entries)
        threads := s.threads ++ [.start ((normalPt entries).map (·.ptId))] }
  | move {i : ℕ} {race : Bool} {th th' : Thread} {t : State} (hi : s.threads[i]? = some th)
      (hrun : Run ptOf s th t th') :
      Moves ptOf s (.move i race) { t with threads := t.threads.set i th' }

theorem moves_of_step {ptOf : Op → Pt} {s t : State} {a : Act} (h : step ptOf s a = some t) :
    Moves ptOf s a t := by
  cases a with
  | opSubmit op =>
    simp only [step] at h
    split_ifs at h with hnew
    cases h
    exact .opSubmit hnew
  | finish op =>
    simp only [step] at h
    split_ifs at h with hmem
    cases h
    exact .finish hmem
  | errorReply op =>
    simp only [step] at h
    split_ifs at h with hmem
    cases h
    exact .errorReply hmem
  | setPt p ok =>
    by_cases hsame : s.status p = ok
    · simp [step, hsame] at h
    · rw [step, if_neg hsame] at h
      cases h
      exact .setPt
  | notify entries =>
    by_cases hdiff : (normalPt entries).diff s.pending ≠ []
    · simp [step, hdiff] at h
    · by_cases hnone : normalPt entries = []
      · rw [step, if_neg hdiff, if_pos hnone] at h
        cases h
        exact .ignore
      · rw [step, if_neg hdiff, if_neg hnone] at h
        cases h
        exact .notify
  | move i race =>
    simp only [step, Option.bind_eq_bind, Option.bind_eq_some_iff] at h
    obtain ⟨th, hi, ⟨u, th'⟩, hth, hret⟩ := h
    cases hret
    exact .move hi (run_of_threadStep hth)

/-! ## An op is in one place -/

section Places

variable {ptOf : Op → Pt} {s t : State} {th th' : Thread} {op x : Op} {a : Act}

theorem count_filter_key (waiting : List (ℕ × Op)) (p : ℕ) (x : Op) :
    ((waiting.filter fun e => e.1 = p).map (·.2)).count x +
      ((waiting.filter fun e => e.1 ≠ p).map (·.2)).count x = (waiting.map (·.2)).count x := by
  have hsplit := List.countP_eq_countP_filter_add waiting (fun e => e.2 == x)
    (fun e => decide (e.1 = p))
  simp only [List.count_eq_countP, List.countP_map, Function.comp_def, ne_eq, decide_not]
  exact hsplit.symm

/-- The loop over `ready_pt_id` moves ops and drops none. -/
theorem takeReady_count (ps : List ℕ) (waiting : List (ℕ × Op)) (x : Op) :
    (takeReady ps waiting).1.count x + ((takeReady ps waiting).2.map (·.2)).count x =
      (waiting.map (·.2)).count x := by
  induction ps generalizing waiting with
  | nil => simp [takeReady]
  | cons p ps ih =>
    have hrest := ih (waiting.filter fun e => e.1 ≠ p)
    have hsplit := count_filter_key waiting p x
    simp only [takeReady, List.count_append]
    omega

theorem count_eraseIdx {l : List Op} {k : ℕ} (hk : l[k]? = some op) (x : Op) :
    (l.eraseIdx k).count x + [op].count x = l.count x := by
  obtain ⟨hlt, rfl⟩ := List.getElem?_eq_some_iff.mp hk
  have hsplit : l.take k ++ l[k] :: l.drop (k + 1) = l := by
    rw [← List.drop_eq_getElem_cons hlt, List.take_append_drop]
  have hcount := congrArg (List.count x) hsplit
  rw [List.count_append, List.count_cons] at hcount
  rw [List.eraseIdx_eq_take_drop_succ, List.count_append, List.count_singleton]
  omega

theorem Submit.stored {pc : SubmitPc} {pc' : Option SubmitPc} (h : Submit ptOf s op pc t pc')
    (x : Op) : t.stored x + (if pc'.isSome then [op].count x else 0) =
      s.stored x + [op].count x := by
  cases h with
  | internal => rfl
  | hang hlock =>
    simp only [State.stored, List.count_append, Option.isSome_none, Bool.false_eq_true, if_false]
    omega
  | assign =>
    simp only [State.stored, List.count_append, Option.isSome_none, Bool.false_eq_true, if_false]
    omega

/-- **A thread's step moves ops between its variables and the containers.** -/
theorem Run.stored (h : Run ptOf s th t th') (x : Op) :
    t.stored x + th'.ops.count x = s.stored x + th.ops.count x := by
  cases h with
  | submit h => exact h.stored x
  | submitted h => exact h.stored x
  | queue =>
    simp only [State.stored, List.map_append, List.map_cons, List.map_nil, List.count_append,
      Thread.ops, List.count_nil]
    omega
  | take =>
    rename_i readyPtId
    have hcount := takeReady_count readyPtId s.waiting x
    simp only [State.stored, Thread.ops, List.count_nil]
    omega
  | resend h =>
    rename_i op pc pc' left swept
    have hsub := h.stored x
    cases pc' with
    | none =>
      simp only [Option.isSome_none, Bool.false_eq_true, if_false, List.count_singleton] at hsub
      simp only [Option.map_none, Thread.ops, List.count_cons]
      omega
    | some pc' =>
      simp only [Option.isSome_some, if_true, List.count_singleton] at hsub
      simp only [Option.map_some, Thread.ops, List.count_cons]
      omega
  | next => rfl
  | lock hlock => rfl
  | finish => rfl
  | sweepOk hk =>
    have hcount := count_eraseIdx hk x
    simp only [State.stored, Thread.ops, List.count_append]
    omega
  | sweepNot hk hnot => rfl
  | unlock hk => rfl

theorem Submit.threads_eq {pc : SubmitPc} {pc' : Option SubmitPc}
    (h : Submit ptOf s op pc t pc') : t.threads = s.threads := by
  cases h <;> rfl

theorem Run.threads_eq (h : Run ptOf s th t th') : t.threads = s.threads := by
  cases h with
  | submit h | submitted h | resend h => exact h.threads_eq
  | _ => rfl

theorem Moves.copies_le (h : Moves ptOf s a t) (hone : ∀ x, s.copies x ≤ 1) (x : Op) :
    t.copies x ≤ 1 := by
  have hx := hone x
  cases h with
  | opSubmit hnew =>
    rename_i op
    by_cases hop : op = x
    · subst hop
      simp only [State.copies, State.stored, total_append, total_cons, total_nil, Thread.ops,
        List.count_singleton_self] at hnew ⊢
      omega
    · simp only [State.copies, State.stored, total_append, total_cons, total_nil, Thread.ops,
        List.count_singleton, beq_iff_eq, hop, if_false] at hx ⊢
      omega
  | finish hmem =>
    rename_i op
    have hle : (s.session.erase op).count x ≤ s.session.count x :=
      List.erase_sublist.count_le x
    simp only [State.copies, State.stored] at hx ⊢
    omega
  | errorReply hmem =>
    rename_i op
    -- the op leaves the session and is in the reply's thread
    have herase : (s.session.erase op).count x + [op].count x = s.session.count x := by
      by_cases hop : op = x
      · subst hop
        have := List.count_pos_iff.mpr hmem
        rw [List.count_erase_self, List.count_singleton_self]
        omega
      · rw [List.count_erase_of_ne (Ne.symm hop), List.count_singleton, if_neg (by simpa using hop)]
        omega
    simp only [State.copies, State.stored, total_append, total_cons, total_nil, Thread.ops]
      at hx ⊢
    omega
  | setPt => exact hx
  | ignore => exact hx
  | notify =>
    simp only [State.copies, State.stored, total_append, total_cons, total_nil, Thread.ops,
      List.count_nil] at hx ⊢
    omega
  | move hi hrun =>
    rename_i i race th th' u
    have hstored := hrun.stored x
    have htotal := total_set (f := fun th => th.ops.count x) (y := th') hi
    simp only [State.copies] at hx ⊢
    rw [hrun.threads_eq]
    have hkeep : State.stored { u with threads := s.threads.set i th' } x = u.stored x := rfl
    omega

end Places

/-! ## No op is lost -/

def Thread.sweeping : Thread → ℕ
  | .sweep _ _ => 1
  | _ => 0

/-- The lock belongs to the one sweep there is, and an op whose partition is OK lies in a
container only while a notification is on its way to it. -/
structure RetryInv (ptOf : Op → Pt) (s : State) : Prop where
  lock : total Thread.sweeping s.threads = if s.retrylock then 1 else 0
  hangon : ∀ (j : ℕ) (op : Op), s.hangon[j]? = some op → s.status (ptOf op) = true →
    sweepComing s j = true
  keys : ∀ e ∈ s.waiting, e.1 = (ptOf e.2).ptId
  waiting : ∀ e ∈ s.waiting, s.status (ptOf e.2) = true → takeComing s e.1 = true

section Lost

variable {ptOf : Op → Pt} {s t : State} {th th' : Thread} {op : Op} {a : Act} {i j k key : ℕ}

theorem RetryInv.init (status : Pt → Bool) : RetryInv ptOf { status := status } := by
  refine ⟨rfl, ?_, ?_, ?_⟩ <;> simp

@[simp]
theorem willSweep_resend {current : Option (Op × SubmitPc)} {left : List Op} {swept : Bool} :
    (Thread.resend current left swept).willSweep j = !swept := by
  cases swept <;> rfl

@[simp]
theorem willTake_resend {current : Option (Op × SubmitPc)} {left : List Op} {swept : Bool} :
    (Thread.resend current left swept).willTake key = false := rfl

theorem Submit.outside_eq {pc : SubmitPc} {pc' : Option SubmitPc}
    (h : Submit ptOf s op pc t pc') :
    t.status = s.status ∧ t.pending = s.pending ∧ t.waiting = s.waiting ∧
      t.retrylock = s.retrylock := by
  cases h <;> exact ⟨rfl, rfl, rfl, rfl⟩

/-- Only CCM changes the status and the notifications. -/
theorem Run.outside_eq (h : Run ptOf s th t th') :
    t.status = s.status ∧ t.pending = s.pending := by
  cases h with
  | submit h | submitted h | resend h => exact ⟨h.outside_eq.1, h.outside_eq.2.1⟩
  | _ => exact ⟨rfl, rfl⟩

theorem sweeping_le_lock (hinv : RetryInv ptOf s) (hi : s.threads[i]? = some th) :
    th.sweeping ≤ if s.retrylock then 1 else 0 := by
  rw [← hinv.lock]
  exact le_total (List.mem_of_getElem? hi)

theorem RetryInv.lock_move (hinv : RetryInv ptOf s) (hi : s.threads[i]? = some th)
    (hrun : Run ptOf s th t th') :
    total Thread.sweeping (t.threads.set i th') = if t.retrylock then 1 else 0 := by
  have hset := total_set (f := Thread.sweeping) (y := th') hi
  have hle := sweeping_le_lock hinv hi
  have hlock := hinv.lock
  rw [hrun.threads_eq]
  cases hrun with
  | submit h | submitted h | resend h =>
    rw [h.outside_eq.2.2.2]
    simp only [Thread.sweeping] at hset
    omega
  | lock hfree =>
    simp only [Thread.sweeping, hfree, Bool.false_eq_true, if_false, if_true] at hset hlock ⊢
    omega
  | unlock hk =>
    simp only [Thread.sweeping, Bool.false_eq_true, if_false] at hset hle ⊢
    split_ifs at hle hlock <;> omega
  | queue | take | next | finish | sweepOk _ | sweepNot _ _ =>
    show _ = if s.retrylock then 1 else 0
    simp only [Thread.sweeping] at hset
    omega

/-- At most one thread is in the sweep. -/
theorem RetryInv.not_sweeping (hinv : RetryInv ptOf s) {opQueue : List Op}
    (hi : s.threads[i]? = some (.sweep k opQueue)) {m : ℕ} {o : Thread} (hmi : m ≠ i)
    (hm : s.threads[m]? = some o) : o.sweeping = 0 := by
  -- with thread `i` gone, the sum over the rest is zero
  have hset := total_set (f := Thread.sweeping) (y := Thread.done) hi
  have hm' : (s.threads.set i .done)[m]? = some o := by
    rw [List.getElem?_set_ne (Ne.symm hmi)]
    exact hm
  have hle := le_total (f := Thread.sweeping) (List.mem_of_getElem? hm')
  have hlock := hinv.lock
  simp only [Thread.sweeping] at hset
  split_ifs at hlock <;> omega

/-- A sweep that is still to come at one index is still to come at every index, unless it has
begun. -/
theorem willSweep_of_not_sweeping (h : th.sweeping = 0) (hj : th.willSweep j = true) (k : ℕ) :
    th.willSweep k = true := by
  cases th with
  | sweep k opQueue => cases h
  | start readyPtId => rfl
  | resend current left swept => simpa using hj
  | _ => cases hj

theorem sweepComing_set {j k : ℕ} (hi : s.threads[i]? = some th)
    (hth : th.willSweep j = true → th'.willSweep k = true)
    (hother : ∀ (m : ℕ) (o : Thread), m ≠ i → s.threads[m]? = some o → o.willSweep j = true →
      o.willSweep k = true)
    (hpending : t.pending = s.pending) (hthreads : t.threads = s.threads.set i th')
    (h : sweepComing s j = true) : sweepComing t k = true := by
  unfold sweepComing at h ⊢
  rw [hpending, hthreads]
  rcases Bool.or_eq_true_iff.mp h with hpend | hany
  · rw [hpend, Bool.true_or]
  · rw [any_set hi hth hother hany, Bool.or_true]

theorem takeComing_set (hi : s.threads[i]? = some th)
    (hth : th.willTake key = true → th'.willTake key = true)
    (hpending : t.pending = s.pending) (hthreads : t.threads = s.threads.set i th')
    (h : takeComing s key = true) : takeComing t key = true := by
  unfold takeComing at h ⊢
  rw [hpending, hthreads]
  rcases Bool.or_eq_true_iff.mp h with hpend | hany
  · rw [hpend, Bool.true_or]
  · rw [any_set hi hth (fun _ _ _ _ h => h) hany, Bool.or_true]

/-- What a thread's step does to the hang-on list. Where the list stays, the thread still
comes to every index that matters; where an op is pushed, it still comes where it came
before. -/
theorem Run.hangon_cases (h : Run ptOf s th t th') :
    (t.hangon = s.hangon ∧ ∀ (j : ℕ) (op : Op), s.hangon[j]? = some op →
      s.status (ptOf op) = true → th.willSweep j = true → th'.willSweep j = true) ∨
    (∃ op, th.hanging = some op ∧ t.hangon = s.hangon ++ [op] ∧
      ∀ j, th.willSweep j = true → th'.willSweep j = true) ∨
    ∃ (k : ℕ) (opQueue opQueue' : List Op) (op : Op), th = .sweep k opQueue ∧
      th' = .sweep k opQueue' ∧ s.hangon[k]? = some op ∧ t.hangon = s.hangon.eraseIdx k := by
  cases h with
  | submit h =>
    cases h
    exact .inl ⟨rfl, fun _ _ _ _ h => h⟩
  | submitted h =>
    cases h with
    | hang hlock => exact .inr (.inl ⟨_, rfl, rfl, fun _ h => h⟩)
    | assign => exact .inl ⟨rfl, fun _ _ _ _ h => h⟩
  | resend h =>
    cases h with
    | internal => exact .inl ⟨rfl, fun _ _ _ _ h => by simpa using h⟩
    | hang hlock => exact .inr (.inl ⟨_, rfl, rfl, fun _ h => by simpa using h⟩)
    | assign => exact .inl ⟨rfl, fun _ _ _ _ h => by simpa using h⟩
  | queue => exact .inl ⟨rfl, fun _ _ _ _ h => h⟩
  | take => exact .inl ⟨rfl, fun _ _ _ _ _ => rfl⟩
  | next => exact .inl ⟨rfl, fun _ _ _ _ h => by simpa using h⟩
  | lock hlock => exact .inl ⟨rfl, fun j _ _ _ _ => by simp [Thread.willSweep]⟩
  | finish => exact .inl ⟨rfl, fun _ _ _ _ h => by simp at h⟩
  | sweepOk hk => exact .inr (.inr ⟨_, _, _, _, rfl, rfl, hk, rfl⟩)
  | sweepNot hk hnot =>
    rename_i k opQueue op
    refine .inl ⟨rfl, ?_⟩
    intro j op' hj hok hsweep
    -- the op it passes over is not OK, so it is not the one at `j`
    have hne : j ≠ k := by
      rintro rfl
      obtain rfl := Option.some.inj (hk.symm.trans hj)
      simp [hnot] at hok
    simp only [Thread.willSweep, decide_eq_true_eq] at hsweep ⊢
    omega
  | unlock hk =>
    refine .inl ⟨rfl, ?_⟩
    intro j op hj hok hsweep
    have hlt := (List.getElem?_eq_some_iff.mp hj).1
    rw [List.getElem?_eq_none_iff] at hk
    simp only [Thread.willSweep, decide_eq_true_eq] at hsweep
    omega

theorem takeReady_left {ps : List ℕ} {waiting : List (ℕ × Op)} {e : ℕ × Op}
    (h : e ∈ (takeReady ps waiting).2) : e ∈ waiting ∧ e.1 ∉ ps := by
  induction ps generalizing waiting with
  | nil => exact ⟨h, List.not_mem_nil⟩
  | cons p ps ih =>
    obtain ⟨hmem, hps⟩ := ih h
    obtain ⟨hw, hp⟩ := List.mem_filter.mp hmem
    refine ⟨hw, ?_⟩
    rw [List.mem_cons, not_or]
    exact ⟨by simpa using hp, hps⟩

/-- What a thread's step does to the queues. A queue is taken whole, so the callback that
takes some leaves none that it was still to take. -/
theorem Run.waiting_cases (h : Run ptOf s th t th') {e : ℕ × Op} (he : e ∈ t.waiting) :
    (e ∈ s.waiting ∧ (th.willTake e.1 = true → th'.willTake e.1 = true)) ∨
      ∃ op, th.queueing = some op ∧ e = ((ptOf op).ptId, op) := by
  cases h with
  | submit h | submitted h | resend h =>
    rw [h.outside_eq.2.2.1] at he
    exact .inl ⟨he, fun h => by cases h⟩
  | queue =>
    rcases List.mem_append.mp he with hold | hnew
    · exact .inl ⟨hold, fun h => by cases h⟩
    · exact .inr ⟨_, rfl, List.mem_singleton.mp hnew⟩
  | take =>
    obtain ⟨hold, hnot⟩ := takeReady_left he
    refine .inl ⟨hold, fun h => absurd ?_ hnot⟩
    simpa [Thread.willTake] using h
  | next | lock _ | finish | sweepOk _ | sweepNot _ _ | unlock _ =>
    exact .inl ⟨he, fun h => by cases h⟩

/-- The condition, at a push onto the hang-on list. -/
theorem hanging_inTime {race : Bool} (hok : PushesInTime ptOf s (.move i race))
    (hi : s.threads[i]? = some th) (hop : th.hanging = some op)
    (hstatus : s.status (ptOf op) = true) : sweepComing s s.hangon.length = true := by
  simp only [PushesInTime, pushesInTime, hi, Option.all_some, hop, hstatus, Bool.not_true,
    Bool.false_or, Bool.and_eq_true] at hok
  exact hok.1

/-- The condition, at a push onto a queue. -/
theorem queueing_inTime {race : Bool} (hok : PushesInTime ptOf s (.move i race))
    (hi : s.threads[i]? = some th) (hop : th.queueing = some op)
    (hstatus : s.status (ptOf op) = true) : takeComing s (ptOf op).ptId = true := by
  simp only [PushesInTime, pushesInTime, hi, Option.all_some, hop, hstatus, Bool.not_true,
    Bool.false_or, Bool.and_eq_true] at hok
  exact hok.2

/-- **A thread moves.** -/
theorem RetryInv.move {race : Bool} (hinv : RetryInv ptOf s)
    (hok : PushesInTime ptOf s (.move i race)) (hi : s.threads[i]? = some th)
    (hrun : Run ptOf s th t th') : RetryInv ptOf { t with threads := t.threads.set i th' } := by
  obtain ⟨hstatus, hpending⟩ := hrun.outside_eq
  have hthreads : t.threads.set i th' = s.threads.set i th' := by rw [hrun.threads_eq]
  refine ⟨hinv.lock_move hi hrun, ?_, ?_, ?_⟩
  · intro j op hj hop
    replace hop : s.status (ptOf op) = true := by rw [← hstatus]; exact hop
    replace hj : t.hangon[j]? = some op := hj
    -- `hangon` is left alone, gets an op at its end, or loses one to the sweep
    rcases hrun.hangon_cases with ⟨heq, hkeep⟩ | ⟨op', hpush, heq, hkeep⟩ |
        ⟨k, opQueue, opQueue', op', rfl, rfl, hk, heq⟩
    · rw [heq] at hj
      exact sweepComing_set hi (hkeep j op hj hop) (fun _ _ _ _ h => h) hpending hthreads
        (hinv.hangon j op hj hop)
    · rw [heq] at hj
      refine sweepComing_set hi (hkeep j) (fun _ _ _ _ h => h) hpending hthreads ?_
      rcases getElem?_concat_cases hj with hold | ⟨rfl, rfl⟩
      · exact hinv.hangon j op hold hop
      · exact hanging_inTime hok hi hpush hop
    · -- the ops behind the one taken move up by one; no other thread is in a sweep
      rw [heq, List.getElem?_eraseIdx] at hj
      split_ifs at hj with hjk
      · refine sweepComing_set hi ?_ (fun _ _ _ _ h => h) hpending hthreads
          (hinv.hangon j op hj hop)
        exact fun hsweep => hsweep
      · refine sweepComing_set hi ?_ ?_ hpending hthreads (hinv.hangon (j + 1) op hj hop)
        · intro _
          simp only [Thread.willSweep, decide_eq_true_eq]
          omega
        · intro m o hmi hm hsweep
          exact willSweep_of_not_sweeping (hinv.not_sweeping hi hmi hm) hsweep j
  · intro e he
    rcases hrun.waiting_cases he with ⟨hold, -⟩ | ⟨op, -, rfl⟩
    · exact hinv.keys e hold
    · rfl
  · intro e he hop
    replace hop : s.status (ptOf e.2) = true := by rw [← hstatus]; exact hop
    rcases hrun.waiting_cases he with ⟨hold, hkeep⟩ | ⟨op, hpush, rfl⟩
    · exact takeComing_set hi hkeep hpending hthreads (hinv.waiting e hold hop)
    · refine takeComing_set hi ?_ hpending hthreads (queueing_inTime hok hi hpush hop)
      intro htake
      cases th <;> simp [Thread.willTake, Thread.queueing] at htake hpush

/-- A new thread takes no notification away. -/
theorem sweepComing_append (h : sweepComing s j = true) (hpending : t.pending = s.pending)
    (hthreads : t.threads = s.threads ++ [th]) : sweepComing t j = true := by
  unfold sweepComing at h ⊢
  rw [hpending, hthreads, List.any_append, ← Bool.or_assoc, h, Bool.true_or]

theorem takeComing_append (h : takeComing s key = true) (hpending : t.pending = s.pending)
    (hthreads : t.threads = s.threads ++ [th]) : takeComing t key = true := by
  unfold takeComing at h ⊢
  rw [hpending, hthreads, List.any_append, ← Bool.or_assoc, h, Bool.true_or]

/-- A thread that is not a callback enters; the containers of retries are as they were. -/
theorem RetryInv.enter (hinv : RetryInv ptOf s) (hth : th.sweeping = 0)
    (hpending : t.pending = s.pending) (hthreads : t.threads = s.threads ++ [th])
    (hstatus : t.status = s.status) (hhangon : t.hangon = s.hangon)
    (hwaiting : t.waiting = s.waiting) (hlock : t.retrylock = s.retrylock) :
    RetryInv ptOf t := by
  refine ⟨?_, ?_, ?_, ?_⟩
  · rw [hthreads, hlock, total_append, hinv.lock, total_cons, total_nil, hth]
    rfl
  · intro j op hj hop
    rw [hhangon] at hj
    rw [hstatus] at hop
    exact sweepComing_append (hinv.hangon j op hj hop) hpending hthreads
  · rw [hwaiting]
    exact hinv.keys
  · intro e he hop
    rw [hwaiting] at he
    rw [hstatus] at hop
    exact takeComing_append (hinv.waiting e he hop) hpending hthreads

/-- A partition changes: a change to OK is a new notification, and it names the partition. -/
theorem RetryInv.setPt (hinv : RetryInv ptOf s) (p : Pt) (ok : Bool) :
    RetryInv ptOf { s with
      status := Function.update s.status p ok
      pending := if ok then s.pending ++ [p] else s.pending } := by
  refine ⟨hinv.lock, ?_, hinv.keys, ?_⟩
  · -- the sweep looks at every op, whichever partition the notification names
    intro j op hj hop
    cases ok with
    | true => simp [sweepComing]
    | false =>
      by_cases hp : ptOf op = p
      · simp [hp] at hop
      · simp only [Function.update_of_ne hp] at hop
        exact hinv.hangon j op hj hop
  · -- the first list takes the keys that are named, so here it matters which
    intro e he hop
    by_cases hp : ptOf e.2 = p
    · cases ok with
      | true =>
        have hkey : p.ptId = e.1 := by rw [hinv.keys e he, hp]
        simp [takeComing, hkey]
      | false => simp [hp] at hop
    · simp only [Function.update_of_ne hp] at hop
      have hcoming := hinv.waiting e he hop
      cases ok with
      | true =>
        unfold takeComing at hcoming ⊢
        rcases Bool.or_eq_true_iff.mp hcoming with hpend | hany
        · simp only [if_true, List.any_append, hpend, Bool.true_or]
        · rw [hany, Bool.or_true]
      | false => exact hcoming

/-- CCM reports: what was pending is what the new callback goes for. -/
theorem RetryInv.notify (hinv : RetryInv ptOf s) (entries : List PtEntry) :
    RetryInv ptOf { s with
      pending := s.pending.diff (normalPt entries)
      threads := s.threads ++ [.start ((normalPt entries).map (·.ptId))] } := by
  refine ⟨?_, ?_, hinv.keys, ?_⟩
  · rw [total_append, hinv.lock]
    rfl
  · intro j op hj hop
    simp [sweepComing, Thread.willSweep]
  · intro e he hop
    have hcoming := hinv.waiting e he hop
    unfold takeComing at hcoming ⊢
    rcases Bool.or_eq_true_iff.mp hcoming with hpend | hany
    · obtain ⟨p, hp, hkey⟩ := List.any_eq_true.mp hpend
      by_cases hnamed : p ∈ normalPt entries
      · have hstart : e.1 ∈ (normalPt entries).map (·.ptId) :=
          List.mem_map.mpr ⟨p, hnamed, of_decide_eq_true hkey⟩
        simp [Thread.willTake, List.any_append, hstart]
      · have hleft : p ∈ s.pending.diff (normalPt entries) := List.mem_diff_of_mem hp hnamed
        rw [List.any_eq_true.mpr ⟨p, hleft, hkey⟩, Bool.true_or]
    · simp only [List.any_append, hany, Bool.true_or, Bool.or_true]

theorem RetryInv.step (hinv : RetryInv ptOf s) (hok : PushesInTime ptOf s a)
    (hmove : Moves ptOf s a t) : RetryInv ptOf t := by
  cases hmove with
  | opSubmit hnew => exact hinv.enter rfl rfl rfl rfl rfl rfl rfl
  | finish hmem => exact ⟨hinv.lock, hinv.hangon, hinv.keys, hinv.waiting⟩
  | errorReply hmem => exact hinv.enter rfl rfl rfl rfl rfl rfl rfl
  | setPt => exact hinv.setPt _ _
  | ignore => exact hinv
  | notify => exact hinv.notify _
  | move hi hrun => exact hinv.move hok hi hrun

/-- With no notification on its way, a container holds no op whose partition is OK. -/
theorem RetryInv.noneLost (hinv : RetryInv ptOf s) (hquiet : Quiescent s) : NoneLost ptOf s := by
  obtain ⟨hpending, hdone⟩ := hquiet
  have hnone : ∀ p : Thread → Bool, p .done = false → s.threads.any p = false := by
    intro p hp
    rw [List.any_eq_false]
    intro th hth
    rw [hdone th hth, hp]
    exact Bool.false_ne_true
  constructor
  · intro op hmem
    obtain ⟨j, hj⟩ := List.getElem?_of_mem hmem
    by_contra hok
    have hcoming := hinv.hangon j op hj (by simpa using hok)
    rw [sweepComing, hpending, hnone _ rfl] at hcoming
    cases hcoming
  · intro e he
    by_contra hok
    have hcoming := hinv.waiting e he (by simpa using hok)
    rw [takeComing, hpending, hnone _ rfl] at hcoming
    cases hcoming

/-- **The retry loses no op.** From any state of the partitions: no run has an op in two of the
session, the hang-on list and the queues; and in a run whose pushes are all in time, no
quiescent state has an op in a container although its partition is OK. -/
theorem retry_loses_nothing (ptOf : Op → Pt) (status : Pt → Bool) :
    (∀ s, Reach (step ptOf) Free { status := status } s → NotInTwo s) ∧
      ∀ s, Reach (step ptOf) (PushesInTime ptOf) { status := status } s → Quiescent s →
        NoneLost ptOf s := by
  constructor
  · intro s hreach op
    have hone : ∀ x, s.copies x ≤ 1 := by
      apply hreach.invariant (fun x => by simp [State.copies, State.stored])
      intro s a t hs _ hstep
      exact (moves_of_step hstep).copies_le hs
    exact (Nat.le_add_right _ _).trans (hone op)
  · intro s hreach hquiet
    have hinv : RetryInv ptOf s := by
      apply hreach.invariant (RetryInv.init status)
      intro s a t hs hok hstep
      exact hs.step hok (moves_of_step hstep)
    exact hinv.noneLost hquiet

end Lost

/-! ## Where an op is lost -/

/-- One cluster with one partition. -/
def onePt : Op → Pt := fun _ => ⟨0, 0⟩

/-- The partition comes back while an op hangs: its callback finds the op and sends it. -/
def hungThenSent : List Act :=
  [.opSubmit 7, .move 0 false, .move 0 false, .setPt ⟨0, 0⟩ true, .notify [⟨⟨0, 0⟩, true⟩],
    .move 1 false, .move 1 false, .move 1 false, .move 1 false, .move 1 false, .move 1 false,
    .move 1 false, .move 1 false]

theorem retry_loses_nothing_hung_then_sent :
    ∃ s, Reach (step onePt) (PushesInTime onePt) { status := fun _ => false } s ∧
      Quiescent s ∧ s.session = [7] ∧ NoneLost onePt s := by
  obtain ⟨s, hs, hp⟩ := exists_reach_of_checked (step onePt) (PushesInTime onePt)
    (pushesInTime onePt) { status := fun _ => false } hungThenSent
    (fun s => decide (Quiescent s ∧ s.session = [7])) (by decide) (fun _ _ h => h)
  obtain ⟨hquiet, hsession⟩ := of_decide_eq_true hp
  exact ⟨s, hs, hquiet, hsession, (retry_loses_nothing onePt _).2 s hs hquiet⟩

/-- The partition comes back, and its callback runs from end to end, between the test in
`_op_submit` and the push. -/
def hungTooLate : List Act :=
  [.opSubmit 7, .move 0 false, .setPt ⟨0, 0⟩ true, .notify [⟨⟨0, 0⟩, true⟩], .move 1 false,
    .move 1 false, .move 1 false, .move 1 false, .move 0 false]

/-- The server refuses an op whose partition is OK for the client. -/
def refusedWhileOk : List Act :=
  [.opSubmit 7, .move 0 false, .move 0 false, .errorReply 7, .move 1 false]

/-- Both containers can keep an op for good: the client is quiescent, the partition is OK. -/
theorem retry_loses_op :
    (∃ s, Reach (step onePt) Free { status := fun _ => false } s ∧ Quiescent s ∧
      s.hangon = [7] ∧ s.status (onePt 7) = true) ∧
    ∃ s, Reach (step onePt) Free { status := fun _ => true } s ∧ Quiescent s ∧
      s.waiting = [(0, 7)] ∧ s.status (onePt 7) = true := by
  constructor
  · obtain ⟨s, hs, hp⟩ := exists_reach_of_run (step onePt) Free { status := fun _ => false }
      hungTooLate (fun s => decide (Quiescent s ∧ s.hangon = [7] ∧ s.status (onePt 7) = true))
      (by decide) (fun _ _ _ => trivial)
    exact ⟨s, hs, of_decide_eq_true hp⟩
  · obtain ⟨s, hs, hp⟩ := exists_reach_of_run (step onePt) Free { status := fun _ => true }
      refusedWhileOk
      (fun s => decide (Quiescent s ∧ s.waiting = [(0, 7)] ∧ s.status (onePt 7) = true))
      (by decide) (fun _ _ _ => trivial)
    exact ⟨s, hs, of_decide_eq_true hp⟩

end GcAdaptor.RetryOp
