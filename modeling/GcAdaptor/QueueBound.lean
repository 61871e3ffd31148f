/-
How long a request queue gets.

`EnqueueClientop` looks at the size of its queue once, with an `if`: a call that has waited
on `cond` pushes as soon as it has the mutex again, whatever the size is by then. The handler
wakes every waiter with one `notify_all` after it has emptied the queue, and a wait may also
end by itself, so the waiters of a full queue can all push in a row.

`RoomForWoken` is the test the code does not repeat: a call that comes back from `cond.wait`
finds the queue within its capacity. Under it `queueMaxCapacity + 1` bounds every queue in
every run; the schedule at the end breaks it without a spurious wakeup.
-/
import GcAdaptor.OpHandlerOrder

set_option autoImplicit false

namespace GcAdaptor.QueueBound

open GcAdaptor.Cxx GcAdaptor.Interleave GcAdaptor.NetworkModule GcAdaptor.ClientOpQueue
open GcAdaptor.QueueLock GcAdaptor.OpHandlerOrder

/-- A call that gets the mutex back after `cond.wait` finds its queue within the capacity. -/
def RoomForWoken (cfg : Config) (s : State) : Act → Prop
  | .dispatch k _ => ∀ c, s.calls[k]? = some c → c.pc = .woken →
      (s.queue (cfg.index c.op.name)).reqQueue.length ≤ cfg.queueMaxCapacity
  | _ => True

/-- The bound, with what a call knows when it is about to push. -/
structure BoundInv (cfg : Config) (s : State) : Prop where
  size_le : ∀ q, (s.queue q).reqQueue.length ≤ cfg.queueMaxCapacity + 1
  room : ∀ {k : ℕ} {c : Call}, s.calls[k]? = some c → c.pc = .pushReq →
    (s.queue (cfg.index c.op.name)).reqQueue.length ≤ cfg.queueMaxCapacity

section Bound

variable {cfg : Config} {s t : State} {a : Act} {q k j : ℕ} {now : UInt64} {c d : Call}
variable {x y : OpQueue}

theorem BoundInv.init : BoundInv cfg {} := ⟨by simp, by simp⟩

/-- Nothing is pushed, and no call comes to the point of pushing. -/
theorem BoundInv.shrink (h : BoundInv cfg s)
    (hlen : ∀ q, (t.queue q).reqQueue.length ≤ (s.queue q).reqQueue.length)
    (hcalls : ∀ (k : ℕ) (d : Call), t.calls[k]? = some d → d.pc = .pushReq →
      ∃ c, s.calls[k]? = some c ∧ c.pc = .pushReq ∧ d.op = c.op) : BoundInv cfg t := by
  constructor
  · intro q
    exact (hlen q).trans (h.size_le q)
  · intro k d hk hpc
    obtain ⟨c, hc, hpc', hop⟩ := hcalls k d hk hpc
    rw [hop]
    exact (hlen _).trans (h.room hc hpc')

/-- A call comes to its push past the test or out of the wait, and pushes once. -/
theorem enqueue_size (h : Enqueue cfg.queueMaxCapacity k now c x d y) :
    (y.reqQueue = x.reqQueue ∧ (d.pc = .pushReq →
      x.reqQueue.length ≤ cfg.queueMaxCapacity ∨ c.pc = .woken)) ∨
    (c.pc = .pushReq ∧ y.reqQueue = x.reqQueue ++ [k] ∧ d.pc ≠ .pushReq) := by
  cases h with
  | pass hpc hsize => exact .inl ⟨rfl, fun _ => .inl hsize⟩
  | relock hpc => exact .inl ⟨rfl, fun _ => .inr hpc⟩
  | pushReq hpc => exact .inr ⟨hpc, rfl, by simp⟩
  | _ => exact .inl ⟨rfl, by simp⟩

/-- Two calls of one queue do not hold its mutex together. -/
theorem eq_of_holds (h : LockInv cfg s) (hk : s.calls[k]? = some c) (hj : s.calls[j]? = some d)
    (hidx : cfg.index d.op.name = cfg.index c.op.name) (hc : c.pc.holds = true)
    (hd : d.pc.holds = true) : j = k := by
  have hlockc := lock_of_holds h hk hc
  have hlockd := lock_of_holds h hj hd
  rw [hidx, hlockc] at hlockd
  simpa using hlockd.symm

theorem BoundInv.dispatch (hlock : LockInv cfg s) (h : BoundInv cfg s)
    (hk : s.calls[k]? = some c) (hq : q = cfg.index c.op.name)
    (hroom : c.pc = .woken → (s.queue q).reqQueue.length ≤ cfg.queueMaxCapacity)
    (he : Enqueue cfg.queueMaxCapacity k now c (s.queue q) d y) :
    BoundInv cfg ((s.setCall k d).setQueue q y) := by
  have hop : d.op = c.op := enqueue_op he
  have hget := getElem?_setCall (t := (s.setCall k d).setQueue q y) hk rfl
  have hqueue : ∀ r, ((s.setCall k d).setQueue q y).queue r = if r = q then y else s.queue r :=
    fun r => Function.update_apply ..
  -- every step but the push itself leaves the length alone
  rcases enqueue_size he with ⟨hsame, hpush⟩ | ⟨hpc, happ, hpush⟩
  · have hlen : ∀ r, (((s.setCall k d).setQueue q y).queue r).reqQueue =
        (s.queue r).reqQueue := by
      intro r
      rw [hqueue]
      split_ifs with hr
      · rw [hr, hsame]
      · rfl
    constructor
    · intro r
      rw [hlen]
      exact h.size_le r
    · intro j e hj hpe
      rw [hlen]
      rw [hget] at hj
      split_ifs at hj
      · -- the call itself: it has tested the size, or the condition on the run speaks of it
        obtain rfl : d = e := Option.some.inj hj
        rw [hop, ← hq]
        exact (hpush hpe).elim id hroom
      · exact h.room hj hpe
  · have hlen : y.reqQueue.length ≤ cfg.queueMaxCapacity + 1 := by
      have hle := h.room hk hpc
      rw [← hq] at hle
      rw [happ, List.length_append, List.length_singleton]
      omega
    constructor
    · intro r
      rw [hqueue]
      split_ifs
      · exact hlen
      · exact h.size_le r
    · intro j e hj hpe
      rw [hget] at hj
      split_ifs at hj with hkj
      · obtain rfl : d = e := Option.some.inj hj
        exact absurd hpe hpush
      · -- whoever else is about to push is at another queue
        have hne : cfg.index e.op.name ≠ q := by
          intro hidx
          have hholds : ∀ f : Call, f.pc = .pushReq → f.pc.holds = true := by
            intro f hf
            rw [hf]
            rfl
          exact hkj (eq_of_holds hlock hk hj (hidx.trans hq) (hholds c hpc) (hholds e hpe)).symm
        rw [hqueue, if_neg hne]
        exact h.room hj hpe

/-- The handler swaps its own queue in, and that one is empty then. -/
theorem handle_reqQueue {finish : Bool} (h : Handle finish x y) (hdeal : DealOk x) :
    y.reqQueue.length ≤ x.reqQueue.length := by
  cases h with
  | swapReq hpc =>
    simp only [DealOk, hpc] at hdeal
    simp [hdeal.1]
  | _ => exact le_rfl

theorem length_update (hy : y.reqQueue.length ≤ (s.queue q).reqQueue.length) (r : ℕ) :
    (Function.update s.queue q y r).reqQueue.length ≤ (s.queue r).reqQueue.length := by
  rw [Function.update_apply]
  split_ifs with hr
  · rw [hr]
    exact hy
  · exact le_rfl

theorem step_boundInv (hrun : RunInv cfg s) (h : BoundInv cfg s) (hok : RoomForWoken cfg s a)
    (hs : step cfg s a = some t) : BoundInv cfg t := by
  have hself : ∀ (k : ℕ) (d : Call), s.calls[k]? = some d → d.pc = .pushReq →
      ∃ c, s.calls[k]? = some c ∧ c.pc = .pushReq ∧ d.op = c.op :=
    fun k d hk hpc => ⟨d, hk, hpc, rfl⟩
  cases step_cases hs with
  | call =>
    refine h.shrink (fun _ => le_rfl) ?_
    intro k d hk hpc
    simp only [List.getElem?_append] at hk
    split_ifs at hk
    · exact ⟨d, hk, hpc, rfl⟩
    · rw [List.mem_singleton.mp (List.mem_of_getElem? hk)] at hpc
      simp at hpc
  | dispatch hk hq he =>
    refine h.dispatch hrun.lock hk hq ?_ he
    intro hpc
    rw [hq]
    exact hok _ hk hpc
  | @wakeCall k c hk hpc =>
    refine h.shrink (fun _ => le_rfl) ?_
    intro j d hj hpd
    have hget := getElem?_setCall (t := s.setCall k { c with pc := .woken }) hk rfl
    rw [hget] at hj
    split_ifs at hj
    · rw [← Option.some.inj hj] at hpd
      simp at hpd
    · exact ⟨d, hj, hpd, rfl⟩
  | handler hh | process hh | wakeHandler hh =>
    exact h.shrink (length_update (handle_reqQueue hh (hrun.queue _).books.deal)) hself
  | @notifyCond q _ y hh =>
    -- a call that is notified is awake, and not yet about to push
    refine h.shrink (length_update (handle_reqQueue hh (hrun.queue _).books.deal)) ?_
    intro k d hk hpc
    simp only [List.getElem?_map] at hk
    obtain ⟨c, hc, rfl⟩ := Option.map_eq_some_iff.mp hk
    unfold Call.notified at hpc
    split_ifs at hpc
    exact ⟨c, hc, hpc, rfl⟩
  | stopBegin => exact h.shrink (fun _ => le_rfl) hself
  | stopper hst =>
    obtain ⟨hcalls, hlen⟩ := stopper_frame (fun x => x.reqQueue) (fun _ _ => rfl) (fun _ => rfl) hst
    refine h.shrink (fun q => (congrArg List.length (hlen q)).le) ?_
    rw [hcalls]
    exact hself

/-- **The bound**, in every run in which a call that has waited finds room. -/
theorem reqQueue_le (h : Reach (step cfg) (RoomForWoken cfg) {} s) (q : ℕ) :
    (s.queue q).reqQueue.length ≤ cfg.queueMaxCapacity + 1 := by
  have hinv : BoundInv cfg s := by
    refine h.invariant_of_reach BoundInv.init ?_
    intro s a t hreach hs hok hstep
    exact step_boundInv (reach_runInv hreach) hs hok hstep
  exact hinv.size_le q

end Bound

/-- One queue of capacity one. -/
def tinyQueue : Config := ⟨1, Nat.one_pos, 1, fun _ => 0⟩

/-- `n` calls come in, the first two push, the others find two requests and wait; then the
handler empties the queue and notifies them. -/
def drained (n : ℕ) : List Act :=
  [List.replicate n (.call { name := ascii ['o'], ops := [] } 5), List.replicate 7 (.dispatch 0 7),
    List.replicate 7 (.dispatch 1 7),
    (List.range (n - 2)).flatMap (fun i => List.replicate 2 (.dispatch (i + 2) 7)),
    List.replicate 8 (.handler 0 true)].flatten

/-- `RoomForWoken`, as a test. -/
def roomForWoken (cfg : Config) (s : State) : Act → Bool
  | .dispatch k _ => (s.calls[k]?).all fun c => decide (c.pc = .woken →
      (s.queue (cfg.index c.op.name)).reqQueue.length ≤ cfg.queueMaxCapacity)
  | _ => true

theorem roomForWoken_sound (cfg : Config) (s : State) (a : Act) (h : roomForWoken cfg s a = true) :
    RoomForWoken cfg s a := by
  cases a with
  | dispatch k now =>
    intro c hk hpc
    simp only [roomForWoken, hk, Option.all_some, decide_eq_true_eq] at h
    exact h hpc
  | _ => trivial

/-- Two waiters find the queue empty and then with one request in it. -/
theorem reqQueue_le_two_waiters :
    ∃ s, Reach (step tinyQueue) (RoomForWoken tinyQueue) {} s ∧
      (s.queue 0).reqQueue = [2, 3] ∧ (s.queue 0).reqQueue.length ≤ 1 + 1 := by
  obtain ⟨s, hs, hp⟩ := exists_reach_of_checked (step tinyQueue) (RoomForWoken tinyQueue)
    (roomForWoken tinyQueue) {} (drained 4 ++ List.replicate 6 (.dispatch 2 8) ++
      List.replicate 6 (.dispatch 3 8)) (fun s => decide ((s.queue 0).reqQueue = [2, 3]))
    (by decide) (roomForWoken_sound tinyQueue)
  exact ⟨s, hs, of_decide_eq_true hp, reqQueue_le hs 0⟩

/-- Three waiters of a drained queue push one after the other, with no spurious wakeup. -/
theorem reqQueue_overfull :
    ¬ ∀ (cfg : Config) (s : State), Reach (step cfg) Free {} s →
      ∀ q, (s.queue q).reqQueue.length ≤ cfg.queueMaxCapacity + 1 := by
  intro h
  obtain ⟨s, hs, hp⟩ := exists_reach_of_run (step tinyQueue) Free {}
    (drained 5 ++ List.replicate 6 (.dispatch 2 8) ++ List.replicate 6 (.dispatch 3 8) ++
      List.replicate 6 (.dispatch 4 8))
    (fun s => decide ((s.queue 0).reqQueue = [2, 3, 4])) (by decide) (fun _ _ _ => trivial)
  have hle := h tinyQueue s hs 0
  rw [of_decide_eq_true hp] at hle
  exact absurd hle (by decide)

end GcAdaptor.QueueBound
