/-
The client's count of ops in flight.

`num_in_flight` counts the ops with a completion that are on a session. `_op_submit` counts an
op up before it assigns it (`_send_op_account`), and a reply that finishes an op counts it
down. Between the two an op can leave its session and be submitted again: after a redirect,
after a retryable error, after a reset of the connection, and when CCM reports that a node is
gone. Each of these goes through `_op_submit` again and so must count the op down first.

Three of them do. `nodeview_change_retry_op_submit` takes the ops off their sessions and
counts nothing, so the counter stays too high by one for every op with a completion it has
ever taken: `run_balance` is that law, and `num_in_flight_iff` what follows for the claim.

Functions run interleaved. `_op_submit` holds `rwlock` shared from beginning to end, and the
two functions that empty whole sessions hold it exclusively while they do.
-/
import GcAdaptor.Interleave
import Mathlib.Data.List.Count

set_option autoImplicit false

namespace GcAdaptor.InFlight

open GcAdaptor.Interleave

/-! ## The state -/

abbrev Op := ℕ

/-- A session, by its osd number, or the homeless one. -/
inductive Session
  | osd (osd : BitVec 32)
  | homeless
  deriving DecidableEq

/-- What the functions ask about an op. -/
structure Client where
  /-- `op->onfinish` is not null -/
  onfinish : Op → Bool
  filterMsgByOp : Op → Bool

/-- A thread that submits ops: the call of `_op_submit` it is in, with the session once the op
is counted, and the ops it has still to submit. -/
structure Thread where
  current : Option (Op × Option Session) := none
  left : List Op := []
  deriving DecidableEq

structure State where
  numInFlight : ℤ := 0
  /-- the ops of all sessions -/
  assigned : List (Session × Op) := []
  /-- `hangon_retry_submit_ops` and `op_waiting_for_retry` -/
  held : List Op := []
  threads : List Thread := []

/-- The ops with a completion that are assigned to a session. -/
def inSession (client : Client) (s : State) : ℕ :=
  s.assigned.countP fun e => client.onfinish e.2

/-- No thread is inside these functions. -/
def Quiescent (s : State) : Prop := ∀ th ∈ s.threads, th = {}

instance (s : State) : Decidable (Quiescent s) := by
  unfold Quiescent
  infer_instance

/-! ## The functions -/

def checkOsdValue (osd : BitVec 32) : Bool := osd ≠ -1 && osd.sshiftRight 20 ≠ 0

def getClusterIdFromOsd (osd : BitVec 32) : BitVec 32 := (osd &&& 0xF0000).sshiftRight 16

/-- A session of cluster `clusterId` whose node is not among the available ones. -/
def gone (clusterId : BitVec 32) (availableNodes : List (BitVec 32)) : Session → Bool
  | .osd osd =>
    checkOsdValue osd && getClusterIdFromOsd osd = clusterId &&
      (osd &&& 0xFFFF).sshiftRight 4 ∉ availableNodes
  | .homeless => false

/-- `close_session`: what is left on the session becomes homeless. -/
def closeSession (closed : Session → Bool) (assigned : List (Session × Op)) :
    List (Session × Op) :=
  assigned.map fun e => if closed e.1 then (.homeless, e.2) else e

/-- The first half of `nodeview_change_retry_op_submit`: the ops to resend, and the sessions
without them. -/
def needResend (client : Client) (clusterId : BitVec 32) (availableNodes : List (BitVec 32))
    (assigned : List (Session × Op)) : List Op × List (Session × Op) :=
  let onGone : Session × Op → Bool := fun e => gone clusterId availableNodes e.1
  let resend := assigned.filter onGone
  let opened := closeSession (gone clusterId availableNodes) (assigned.filter fun e => !onGone e)
  -- then the ops that were homeless before
  let stray : Session × Op → Bool := fun e => e.1 = .homeless && client.filterMsgByOp e.2
  ((resend ++ opened.filter stray).map (·.2), opened.filter fun e => !stray e)

/-- How a reply goes on. -/
inductive Reply
  | finish
  /-- a redirect, or `-EAGAIN`: submitted again at once -/
  | redirect
  /-- a retryable error: kept for `retry_op_submit` -/
  | retry
  deriving DecidableEq

inductive Act
  | opSubmit (op : Op)
  | handleOsdOpReply (session : Session) (op : Op) (reply : Reply)
  | nodeviewChange (clusterId : BitVec 32) (availableNodes : List (BitVec 32))
  /-- `up`: `initialized && osdmap->is_up(session->osd)` -/
  | msHandleReset (osd : BitVec 32) (up : Bool)
  /-- `retry_op_submit` takes an op out of its containers -/
  | retryOpSubmit (op : Op)
  /-- thread `i` moves; `target` is the session `_op_submit` finds, `none` where the partition
  is not OK -/
  | move (i : ℕ) (target : Option Session)

section Step

variable (client : Client)

/-- `if (op->onfinish) num_in_flight--` and `_session_op_remove`. -/
def takeOff (s : State) (session : Session) (op : Op) : State :=
  { s with
    numInFlight := if client.onfinish op then s.numInFlight - 1 else s.numInFlight
    assigned := s.assigned.erase (session, op) }

/-- One step of a thread. -/
def threadStep (s : State) (target : Option Session) (th : Thread) : Option (State × Thread) :=
  match th.current with
  | none =>
    match th.left with
    | [] => none
    | op :: left => some (s, ⟨some (op, none), left⟩)
  | some (op, none) =>
    match target with
    | none => some ({ s with held := s.held ++ [op] }, ⟨none, th.left⟩)
    | some session =>
      -- `_send_op_account`
      some ({ s with
          numInFlight := if client.onfinish op then s.numInFlight + 1 else s.numInFlight },
        ⟨some (op, some session), th.left⟩)
  -- `_session_op_assign`
  | some (op, some session) =>
    some ({ s with assigned := s.assigned ++ [(session, op)] }, ⟨none, th.left⟩)

/-- `rwlock` is held shared. -/
def sharedLocked (s : State) : Bool := s.threads.any (·.current.isSome)

def step (s : State) : Act → Option State
  | .opSubmit op => some { s with threads := s.threads ++ [{ left := [op] }] }
  | .handleOsdOpReply session op reply =>
    if (session, op) ∈ s.assigned then
      let s := takeOff client s session op
      some <| match reply with
        | .finish => s
        | .redirect => { s with threads := s.threads ++ [{ current := some (op, none) }] }
        | .retry => { s with held := s.held ++ [op] }
    else none
  | .nodeviewChange clusterId availableNodes =>
    if sharedLocked s then none
    else
      let (resend, assigned) := needResend client clusterId availableNodes s.assigned
      some { s with assigned := assigned, threads := s.threads ++ [{ left := resend }] }
  | .msHandleReset osd up =>
    if sharedLocked s ∨ checkOsdValue osd = false then none
    else
      let resend := (s.assigned.filter fun e => e.1 = .osd osd).map (·.2)
      let s := { s with
        numInFlight := s.numInFlight - resend.countP client.onfinish
        assigned := closeSession (· = .osd osd) (s.assigned.filter fun e => e.1 ≠ .osd osd) }
      -- on the way that is meant for osds, what was taken off is not submitted again
      some <| if up then s else { s with threads := s.threads ++ [{ left := resend }] }
  | .retryOpSubmit op =>
    if op ∈ s.held then
      some { s with held := s.held.erase op, threads := s.threads ++ [{ left := [op] }] }
    else none
  | .move i target => do
    let th ← s.threads[i]?
    let (t, th') ← threadStep client s target th
    return { t with threads := t.threads.set i th' }

end Step

/-! ## The law of the counter -/

/-- The op a thread has counted and not assigned yet. -/
def accounted (client : Client) (th : Thread) : ℕ :=
  match th.current with
  | some (op, some _) => if client.onfinish op then 1 else 0
  | _ => 0

/-- What the counter should be. -/
def due (client : Client) (s : State) : ℕ := inSession client s + total (accounted client) s.threads

/-- How far the counter is off. -/
def gap (client : Client) (s : State) : ℤ := s.numInFlight - due client s

/-- How many ops with a completion a call of `nodeview_change_retry_op_submit` takes off their
sessions. -/
def nodeviewTakes (client : Client) (s : State) : Act → ℕ
  | .nodeviewChange clusterId availableNodes =>
    (needResend client clusterId availableNodes s.assigned).1.countP client.onfinish
  | _ => 0

/-- How many all calls of a run take. -/
def drift (client : Client) : State → List Act → ℕ
  | _, [] => 0
  | s, a :: as =>
    nodeviewTakes client s a + ((step client s a).map fun t => drift client t as).getD 0

section Balance

variable {client : Client} {s t : State} {a : Act} {as : List Act} {session : Session} {op : Op}

theorem countP_closeSession (client : Client) (closed : Session → Bool) (l : List (Session × Op)) :
    (closeSession closed l).countP (fun e => client.onfinish e.2) =
      l.countP fun e => client.onfinish e.2 := by
  unfold closeSession
  rw [List.countP_map]
  congr 1
  funext e
  simp only [Function.comp_apply]
  split_ifs <;> rfl

/-- The resend list and what stays on the sessions make up the sessions. -/
theorem countP_needResend (client : Client) (clusterId : BitVec 32)
    (availableNodes : List (BitVec 32)) (l : List (Session × Op)) :
    (needResend client clusterId availableNodes l).1.countP client.onfinish +
      (needResend client clusterId availableNodes l).2.countP (fun e => client.onfinish e.2) =
    l.countP fun e => client.onfinish e.2 := by
  simp only [needResend]
  rw [List.countP_map, List.countP_append, Nat.add_assoc]
  have hstray := List.countP_eq_countP_filter_add
    (closeSession (gone clusterId availableNodes)
      (l.filter fun e => !gone clusterId availableNodes e.1))
    (fun e => client.onfinish e.2)
    (fun e => decide (e.1 = .homeless) && client.filterMsgByOp e.2)
  have hgone := List.countP_eq_countP_filter_add l (fun e => client.onfinish e.2)
    (fun e => gone clusterId availableNodes e.1)
  rw [countP_closeSession] at hstray
  simp only [Function.comp_def]
  omega

/-- Taking one op off its session with the counter counted down. -/
theorem gap_takeOff (hmem : (session, op) ∈ s.assigned) :
    gap client (takeOff client s session op) = gap client s := by
  have hcount := List.countP_erase (fun e : Session × Op => client.onfinish e.2) s.assigned
    (session, op)
  cases hfin : client.onfinish op with
  | true =>
    have hpos : 0 < s.assigned.countP fun e => client.onfinish e.2 :=
      List.countP_pos_iff.mpr ⟨(session, op), hmem, hfin⟩
    simp only [hmem, hfin, and_self, if_true] at hcount
    simp only [gap, due, takeOff, inSession, hfin, if_true, hcount]
    omega
  | false =>
    simp only [hfin, Bool.false_eq_true, and_false, if_false] at hcount
    simp only [gap, due, takeOff, inSession, hfin, Bool.false_eq_true, if_false, hcount]
    omega

/-- A thread that has counted nothing enters. -/
theorem gap_enter {th : Thread} (hnum : t.numInFlight = s.numInFlight)
    (hassigned : t.assigned = s.assigned) (hthreads : t.threads = s.threads ++ [th])
    (hth : accounted client th = 0) : gap client t = gap client s := by
  simp only [gap, due, inSession, hnum, hassigned, hthreads, total_append, total_cons, total_nil,
    hth]
  omega

/-- The first half of a node view change. -/
theorem gap_needResend (clusterId : BitVec 32) (availableNodes : List (BitVec 32)) :
    gap client { s with
        assigned := (needResend client clusterId availableNodes s.assigned).2 } =
      gap client s + nodeviewTakes client s (.nodeviewChange clusterId availableNodes) := by
  have hcount := countP_needResend client clusterId availableNodes s.assigned
  simp only [gap, due, inSession, nodeviewTakes]
  omega

/-- The first half of `ms_handle_reset`. -/
theorem gap_reset (osd : BitVec 32) :
    gap client { s with
        numInFlight := s.numInFlight -
          ((s.assigned.filter fun e => e.1 = .osd osd).map (·.2)).countP client.onfinish
        assigned := closeSession (· = .osd osd) (s.assigned.filter fun e => e.1 ≠ .osd osd) } =
      gap client s := by
  have hsplit := List.countP_eq_countP_filter_add s.assigned (fun e => client.onfinish e.2)
    (fun e => decide (e.1 = .osd osd))
  have hclosed := countP_closeSession client (· = .osd osd)
    (s.assigned.filter fun e => e.1 ≠ .osd osd)
  simp only [gap, due, inSession, hclosed, List.countP_map, Function.comp_def]
  simp only [ne_eq, decide_not] at hsplit ⊢
  omega

/-- What one step of a thread does to the counter and to its own part of the sum. -/
theorem threadStep_balance {target : Option Session} {th th' : Thread}
    (h : threadStep client s target th = some (t, th')) :
    t.threads = s.threads ∧ t.numInFlight - inSession client t - accounted client th' =
      s.numInFlight - inSession client s - accounted client th := by
  obtain ⟨current, left⟩ := th
  -- between two ops, before `_calc_target`, and with a session in hand
  rcases current with _ | ⟨op, _ | session⟩
  · cases left with
    | nil => cases h
    | cons op left =>
      cases h
      exact ⟨rfl, rfl⟩
  · cases target with
    | none =>
      cases h
      exact ⟨rfl, rfl⟩
    | some session =>
      cases h
      refine ⟨rfl, ?_⟩
      cases hfin : client.onfinish op with
      | true =>
        simp only [inSession, accounted, hfin, if_true]
        omega
      | false => simp only [inSession, accounted, hfin, Bool.false_eq_true, if_false]
  · cases h
    refine ⟨rfl, ?_⟩
    cases hfin : client.onfinish op with
    | true =>
      simp only [inSession, accounted, hfin, if_true, List.countP_append, List.countP_singleton]
      omega
    | false =>
      simp only [inSession, accounted, hfin, Bool.false_eq_true, if_false, List.countP_append,
        List.countP_singleton]
      omega

/-- A step that is no node view change. -/
theorem balance_of_gap_eq (hzero : nodeviewTakes client s a = 0) (h : gap client t = gap client s) :
    gap client t = gap client s + nodeviewTakes client s a := by
  rw [h, hzero]
  exact (add_zero _).symm

/-- **One step.** The counter keeps its distance to what it should be, but for a node view
change, which widens it by the ops it takes. -/
theorem step_balance (h : step client s a = some t) :
    gap client t = gap client s + nodeviewTakes client s a := by
  cases a with
  | opSubmit op =>
    apply balance_of_gap_eq rfl
    cases h
    exact gap_enter rfl rfl rfl rfl
  | handleOsdOpReply session op reply =>
    apply balance_of_gap_eq rfl
    simp only [step] at h
    split_ifs at h with hmem
    rw [← gap_takeOff hmem]
    cases reply with
    | finish =>
      cases h
      rfl
    | redirect =>
      cases h
      exact gap_enter rfl rfl rfl rfl
    | retry =>
      cases h
      rfl
  | nodeviewChange clusterId availableNodes =>
    simp only [step] at h
    split_ifs at h
    cases h
    rw [← gap_needResend clusterId availableNodes]
    exact gap_enter rfl rfl rfl rfl
  | msHandleReset osd up =>
    -- the counter goes down by what is taken off, whether it is submitted again or not
    apply balance_of_gap_eq rfl
    simp only [step] at h
    refine Eq.trans ?_ (gap_reset osd)
    split_ifs at h
    · cases h
      rfl
    · cases h
      exact gap_enter rfl rfl rfl rfl
  | retryOpSubmit op =>
    apply balance_of_gap_eq rfl
    simp only [step] at h
    split_ifs at h
    cases h
    exact gap_enter rfl rfl rfl rfl
  | move i target =>
    apply balance_of_gap_eq rfl
    simp only [step, Option.bind_eq_bind, Option.bind_eq_some_iff] at h
    obtain ⟨th, hi, ⟨u, th'⟩, hth, hret⟩ := h
    cases hret
    obtain ⟨hthreads, hbalance⟩ := threadStep_balance hth
    have htotal := total_set (f := accounted client) (y := th') hi
    have hkeep : inSession client { u with threads := s.threads.set i th' } =
        inSession client u := rfl
    rw [hthreads]
    simp only [gap, due, hkeep]
    omega

/-- **The law of the counter.** In every run it is what it should be, plus all ops with a
completion that node view changes have taken off their sessions. -/
theorem run_balance (h : run (step client) s as = some t) :
    gap client t = gap client s + drift client s as := by
  induction as generalizing s with
  | nil =>
    cases h
    exact (add_zero _).symm
  | cons a as ih =>
    obtain ⟨u, hstep, hrest⟩ := Option.bind_eq_some_iff.mp h
    rw [ih hrest, step_balance hstep]
    simp only [drift, hstep, Option.map_some, Option.getD_some, Nat.cast_add, add_assoc]

end Balance

/-! ## When the counter is right -/

/-- No call of `nodeview_change_retry_op_submit` in the run takes an op with a completion off a
session. -/
def TakesNone (client : Client) (s : State) (as : List Act) : Prop :=
  ∀ (before : List Act) (a : Act) (after : List Act) (u : State), as = before ++ a :: after →
    run (step client) s before = some u → nodeviewTakes client u a = 0

section InFlight

variable {client : Client} {s t : State} {as : List Act}

theorem takesNone_iff (h : run (step client) s as = some t) :
    TakesNone client s as ↔ drift client s as = 0 := by
  induction as generalizing s with
  | nil =>
    refine ⟨fun _ => rfl, ?_⟩
    intro _ before a after u hsplit
    simp at hsplit
  | cons a as ih =>
    obtain ⟨u, hstep, hrest⟩ := Option.bind_eq_some_iff.mp h
    have hdrift : drift client s (a :: as) = nodeviewTakes client s a + drift client u as := by
      simp only [drift, hstep, Option.map_some, Option.getD_some]
    rw [hdrift, Nat.add_eq_zero_iff, ← ih hrest]
    constructor
    · intro htakes
      -- the first action has nothing before it
      refine ⟨htakes [] a as s rfl rfl, ?_⟩
      intro before b after v hsplit hrun
      refine htakes (a :: before) b after v (by rw [hsplit]; rfl) ?_
      simp only [run, hstep, Option.bind_some, hrun]
    · rintro ⟨hfirst, hlater⟩ before b after v hsplit hrun
      cases before with
      | nil =>
        obtain ⟨rfl, rfl⟩ : a = b ∧ as = after := by simpa using hsplit
        cases hrun
        exact hfirst
      | cons c before =>
        obtain ⟨rfl, rfl⟩ : a = c ∧ as = before ++ b :: after := by simpa using hsplit
        simp only [run, hstep, Option.bind_some] at hrun
        exact hlater before b after v rfl hrun

/-- With no thread inside, what is due is what is on the sessions. -/
theorem due_of_quiescent (hquiet : Quiescent s) : due client s = inSession client s := by
  have hzero : total (accounted client) s.threads = 0 := by
    apply total_eq_zero
    intro th hth
    rw [hquiet th hth]
    rfl
  rw [due, hzero, Nat.add_zero]

/-- **`num_in_flight` across resubmission.** At the end of every run that leaves no thread
inside, the counter is the number of ops with a completion on the sessions if and only if no
node view change of the run has taken such an op off its session. -/
theorem num_in_flight_iff (h : run (step client) {} as = some t) (hquiet : Quiescent t) :
    t.numInFlight = inSession client t ↔ TakesNone client {} as := by
  have hbalance := run_balance h
  have hinit : gap client {} = 0 := rfl
  rw [hinit, gap, due_of_quiescent hquiet] at hbalance
  rw [takesNone_iff h]
  omega

end InFlight

/-- Every op has a completion and is one of Global Cache. -/
def allOps : Client := ⟨fun _ => true, fun _ => true⟩

/-- Node 1 of cluster 1. -/
def nodeOne : BitVec 32 := 0x110010

/-- `_op_submit` of the next op of thread `i`, from beginning to end. -/
def submitTo (i : ℕ) (osd : BitVec 32) : List Act :=
  [.move i none, .move i (some (.osd osd)), .move i none]

/-- An op is refused, sent again, then resent after a reset, and a node of another cluster
goes. -/
def resentTwice : List Act :=
  .opSubmit 7 :: submitTo 0 nodeOne ++ [.handleOsdOpReply (.osd nodeOne) 7 .retry,
    .retryOpSubmit 7] ++ submitTo 1 nodeOne ++ [.msHandleReset nodeOne false] ++
    submitTo 2 nodeOne ++ [.nodeviewChange 2 []]

theorem num_in_flight_iff_resent_twice :
    ∃ t, run (step allOps) {} resentTwice = some t ∧ Quiescent t ∧
      t.numInFlight = inSession allOps t ∧ inSession allOps t = 1 := by
  have heval : (run (step allOps) {} resentTwice).any
      (fun t => decide (Quiescent t ∧ inSession allOps t = 1)) = true := by decide
  obtain ⟨t, hrun, hp⟩ := (Option.any_eq_true _ _).mp heval
  obtain ⟨hquiet, hone⟩ := of_decide_eq_true hp
  have hnone : TakesNone allOps {} resentTwice := (takesNone_iff hrun).mpr (by decide)
  exact ⟨t, hrun, hquiet, (num_in_flight_iff hrun hquiet).mpr hnone, hone⟩

/-- The node of the session goes, and the op is sent to another one. -/
def nodeGone : List Act :=
  .opSubmit 7 :: submitTo 0 nodeOne ++ .nodeviewChange 1 [2] :: submitTo 1 0x110020

/-- One op on the sessions, two in flight. -/
theorem num_in_flight_too_high :
    ∃ t, run (step allOps) {} nodeGone = some t ∧ Quiescent t ∧ inSession allOps t = 1 ∧
      t.numInFlight = 2 := by
  have heval : (run (step allOps) {} nodeGone).any
      (fun t => decide (Quiescent t ∧ inSession allOps t = 1 ∧ t.numInFlight = 2)) = true := by
    decide
  obtain ⟨t, hrun, hp⟩ := (Option.any_eq_true _ _).mp heval
  exact ⟨t, hrun, of_decide_eq_true hp⟩

end GcAdaptor.InFlight
