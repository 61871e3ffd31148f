/-
Stopping the server's handlers.

`StopThread` takes the mutex of a queue and gives it back *before* it raises
`finishThread[i]`, and it notifies without the mutex. A handler that has found its flag down
and its queue empty still holds the mutex until it is in `condOpReq.wait`; if the flag and
the notification both fall into that window the handler sleeps with its flag raised, and
`join` waits for it.

`MissesNobody` excludes just that: when `StopThread` notifies a queue, its handler is not
between the tests and the wait. Under it no handler is left asleep once the notify loop is
done, in any run, with or without further calls of `EnqueueClientop`.
-/
import GcAdaptor.QueueLock

set_option autoImplicit false

namespace GcAdaptor.HandlerStop

open GcAdaptor.Interleave GcAdaptor.ClientOpQueue GcAdaptor.QueueLock

/-- `StopThread` has raised `finishThread[i]`. -/
def raised (i : ℕ) : StopPc → Bool
  | .idle => false
  | .lock j | .unlock j | .setFlag j => i < j
  | .notify _ | .join _ | .done => true

/-- `StopThread` has notified queue `i`. -/
def notified (i : ℕ) : StopPc → Bool
  | .notify j => i < j
  | .join _ | .done => true
  | _ => false

/-- The notify loop is over. -/
def loopDone : StopPc → Bool
  | .join _ | .done => true
  | _ => false

/-- The handler has seen its flag down and its queue empty, and is about to wait. -/
def aboutToWait (x : OpQueue) : Prop := x.pc = .empty ∧ x.reqQueue = []

instance (x : OpQueue) : Decidable (aboutToWait x) := by
  unfold aboutToWait
  infer_instance

/-- Handler `i` sleeps with its flag raised and nothing to do, and nobody will notify it. -/
def Hangs (cfg : Config) (s : State) (i : ℕ) : Prop :=
  i < cfg.queueNum ∧ loopDone s.stop = true ∧ (s.queue i).pc = .sleeping ∧
    s.finishThread i = true ∧ (s.queue i).reqQueue = []

instance (cfg : Config) (s : State) (i : ℕ) : Decidable (Hangs cfg s i) := by
  unfold Hangs
  infer_instance

/-- When `StopThread` notifies a queue, its handler is not about to wait. -/
def MissesNobody (s : State) : Act → Prop
  | .stopper => ∀ i, s.stop = .notify i → ¬ aboutToWait (s.queue i)
  | _ => True

/-- A handler whose queue has been notified is awake, and stays so. -/
structure StopInv (cfg : Config) (s : State) : Prop where
  flag : ∀ {i}, i < cfg.queueNum → raised i s.stop = true → s.finishThread i = true
  awake : ∀ {i}, i < cfg.queueNum → notified i s.stop = true →
    (s.queue i).pc ≠ .sleeping ∧ ¬ aboutToWait (s.queue i)

section Stop

variable {cfg : Config} {s t : State} {a : Act} {q k i : ℕ} {now : UInt64} {c d : Call}
variable {x y : OpQueue}

theorem StopInv.init : StopInv cfg {} := ⟨by simp [raised], by simp [notified]⟩

theorem raised_of_notified {p : StopPc} (h : notified i p = true) : raised i p = true := by
  cases p with
  | notify j => rfl
  | join j => rfl
  | done => rfl
  | _ => simp [notified] at h

/-- Whoever moves but `StopThread`: it is enough to look at the queue that moved. -/
theorem StopInv.onQueue (h : StopInv cfg s) (hflag : t.finishThread = s.finishThread)
    (hstop : t.stop = s.stop) (hqueue : t.queue = Function.update s.queue q y)
    (hy : s.finishThread q = true → (s.queue q).pc ≠ .sleeping → ¬ aboutToWait (s.queue q) →
      y.pc ≠ .sleeping ∧ ¬ aboutToWait y) : StopInv cfg t := by
  constructor
  · intro i hi hr
    rw [hflag]
    rw [hstop] at hr
    exact h.flag hi hr
  · intro i hi hn
    rw [hstop] at hn
    rw [hqueue, Function.update_apply]
    split_ifs with hiq
    · subst hiq
      obtain ⟨hsleep, hwait⟩ := h.awake hi hn
      exact hy (h.flag hi (raised_of_notified hn)) hsleep hwait
    · exact h.awake hi hn

theorem notify_awake (x : OpQueue) : x.notify.pc ≠ .sleeping := by
  unfold OpQueue.notify
  by_cases hpc : x.pc = .sleeping
  · simp [hpc]
  · simp [hpc]

theorem notify_aboutToWait (x : OpQueue) (h : ¬ aboutToWait x) : ¬ aboutToWait x.notify := by
  unfold OpQueue.notify
  by_cases hpc : x.pc = .sleeping
  · simp [aboutToWait, hpc]
  · simpa [aboutToWait, hpc] using h

/-- A call does not put the handler to sleep, and pushes onto its queue or leaves it. -/
theorem enqueue_awake (h : Enqueue cfg.queueMaxCapacity k now c x d y)
    (hsleep : x.pc ≠ .sleeping) (hwait : ¬ aboutToWait x) :
    y.pc ≠ .sleeping ∧ ¬ aboutToWait y := by
  cases h with
  | notify => exact ⟨notify_awake x, notify_aboutToWait x hwait⟩
  | pushReq => exact ⟨hsleep, by simp [aboutToWait]⟩
  | _ => exact ⟨hsleep, hwait⟩

/-- With its flag raised the handler does not get past the test of it, and so not to the
wait. -/
theorem handle_awake (h : Handle true x y) (hwait : ¬ aboutToWait x) :
    y.pc ≠ .sleeping ∧ ¬ aboutToWait y := by
  cases h with
  | goOn _ hfinish => simp at hfinish
  | sleep hpc hnil => exact absurd ⟨hpc, hnil⟩ hwait
  | _ => simp [aboutToWait]

theorem StopInv.handle (h : StopInv cfg s) (hflag : t.finishThread = s.finishThread)
    (hstop : t.stop = s.stop) (hqueue : t.queue = Function.update s.queue q y)
    (hh : Handle (s.finishThread q) (s.queue q) y) : StopInv cfg t := by
  refine h.onQueue hflag hstop hqueue ?_
  intro hraised _ hwait
  rw [hraised] at hh
  exact handle_awake hh hwait

/-- `StopThread` before its notify loop: the flags up to where it is are raised. -/
theorem StopInv.before (h : StopInv cfg s) (hnone : ∀ i, notified i t.stop = false)
    (hflag : ∀ i < cfg.queueNum, raised i t.stop = true →
      raised i s.stop = true ∧ t.finishThread i = s.finishThread i ∨ t.finishThread i = true) :
    StopInv cfg t := by
  constructor
  · intro i hi hr
    rcases hflag i hi hr with ⟨hold, hsame⟩ | hnew
    · rw [hsame]
      exact h.flag hi hold
    · exact hnew
  · intro i _ hn
    rw [hnone i] at hn
    simp at hn

theorem stopper_stopInv (h : StopInv cfg s)
    (hok : ∀ i, s.stop = .notify i → ¬ aboutToWait (s.queue i))
    (hst : s.stopper cfg = some t) : StopInv cfg t := by
  cases stopper_cases hst with
  | lock hs _ | unlock hs =>
    refine h.before (fun _ => rfl) ?_
    intro j _ hr
    exact .inl ⟨by rw [hs]; exact hr, rfl⟩
  | @setFlag i hs =>
    refine h.before ?_ ?_
    · intro j
      simp only
      split_ifs <;> simp [notified]
    · intro j hj hr
      by_cases hji : j = i
      · exact .inr (by simp [hji])
      · -- another flag that is due by now was raised before this one
        have hlt : j < i := by
          simp only at hr
          split_ifs at hr with hmore
          · simp only [raised, decide_eq_true_eq] at hr
            omega
          · omega
        refine .inl ⟨by simp [hs, raised, hlt], ?_⟩
        exact Function.update_of_ne hji ..
  | @notify i hs =>
    -- the flags are all up by now, so only the wake-up is new
    constructor
    · intro j hj _
      exact h.flag hj (by rw [hs]; rfl)
    · intro j hj hn
      simp only [State.setQueue, Function.update_apply]
      split_ifs with hji
      · -- the queue just notified: awake, and not about to wait by the condition on the run
        exact ⟨notify_awake _, notify_aboutToWait _ (hok i hs)⟩
      · have hlt : j < i := by
          simp only at hn
          split_ifs at hn with hmore
          · simp only [notified, decide_eq_true_eq] at hn
            omega
          · omega
        exact h.awake hj (by simp [hs, notified, hlt])
  | join hs _ =>
    exact ⟨fun hj _ => h.flag hj (by rw [hs]; rfl), fun hj _ => h.awake hj (by rw [hs]; rfl)⟩

theorem step_stopInv (h : StopInv cfg s) (hok : MissesNobody s a) (hs : step cfg s a = some t) :
    StopInv cfg t := by
  cases step_cases hs with
  | call => exact ⟨h.flag, h.awake⟩
  | wakeCall _ _ => exact ⟨h.flag, h.awake⟩
  | dispatch hk hq he =>
    refine h.onQueue rfl rfl rfl ?_
    intro _ hsleep hwait
    exact enqueue_awake he hsleep hwait
  | handler hh | notifyCond hh | process hh | wakeHandler hh => exact h.handle rfl rfl rfl hh
  | stopBegin hidle =>
    refine h.before (fun _ => rfl) ?_
    intro i _ hr
    simp [raised] at hr
  | stopper hst => exact stopper_stopInv h hok hst

/-- **No handler is left asleep**, in every run in which no notification of `StopThread`
falls between a handler's tests and its wait. -/
theorem handlers_not_hung (h : Reach (step cfg) MissesNobody {} s) (i : ℕ) : ¬ Hangs cfg s i := by
  have hinv : StopInv cfg s := by
    refine h.invariant StopInv.init ?_
    intro s a t hs hok hstep
    exact step_stopInv hs hok hstep
  rintro ⟨hi, hdone, hsleep, -, -⟩
  have hn : notified i s.stop = true := by
    unfold loopDone at hdone
    split at hdone
    · rename_i j hj
      rw [hj]
      rfl
    · rename_i hj
      rw [hj]
      rfl
    · simp at hdone
  exact (hinv.awake hi hn).1 hsleep

end Stop

/-- One handler. -/
def oneHandler : Config := ⟨1, Nat.one_pos, 10, fun _ => 0⟩

/-- `MissesNobody`, as a test. -/
def missesNobody (s : State) : Act → Bool
  | .stopper =>
    match s.stop with
    | .notify i => !decide (aboutToWait (s.queue i))
    | _ => true
  | _ => true

theorem missesNobody_sound (s : State) (a : Act) (h : missesNobody s a = true) :
    MissesNobody s a := by
  cases a with
  | stopper =>
    intro i hi
    simpa [missesNobody, hi] using h
  | _ => trivial

/-- The handler sleeps before it is stopped, and is woken. -/
theorem handlers_not_hung_asleep_before :
    ∃ s, Reach (step oneHandler) MissesNobody {} s ∧ loopDone s.stop = true ∧
      s.finishThread 0 = true ∧ (s.queue 0).pc = .woken ∧ ¬ Hangs oneHandler s 0 := by
  obtain ⟨s, hs, hp⟩ := exists_reach_of_checked (step oneHandler) MissesNobody missesNobody {}
    (List.replicate 3 (.handler 0 true) ++ .stopBegin :: List.replicate 4 .stopper)
    (fun s => loopDone s.stop && s.finishThread 0 && decide ((s.queue 0).pc = .woken))
    (by decide) missesNobody_sound
  simp only [Bool.and_eq_true, decide_eq_true_eq] at hp
  exact ⟨s, hs, hp.1.1, hp.1.2, hp.2, handlers_not_hung hs 0⟩

/-- The handler takes the mutex when `StopThread` has given it back and finds its flag still
down; flag and notification come before its wait. -/
def lostWakeup : List Act :=
  [.stopBegin, .stopper, .stopper, .handler 0 true, .handler 0 true, .stopper, .stopper,
    .handler 0 true]

theorem handler_hangs :
    ¬ ∀ (cfg : Config) (s : State), Reach (step cfg) Free {} s → ∀ i, ¬ Hangs cfg s i := by
  intro h
  obtain ⟨s, hs, hp⟩ := exists_reach_of_run (step oneHandler) Free {} lostWakeup
    (fun s => decide (Hangs oneHandler s 0)) (by decide) (fun _ _ _ => trivial)
  exact h oneHandler s hs 0 (of_decide_eq_true hp)

end GcAdaptor.HandlerStop
