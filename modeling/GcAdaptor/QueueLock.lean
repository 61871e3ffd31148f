/-
The mutex and the logs of the server's queues, in every run.

`LockInv`: whoever is at a place where the code has a queue's mutex is its holder, and the
holder is at such a place. One relation, `LockMove`, says what a party may do to a mutex,
and the invariant follows for all parties at once. `EnqInv`: a call that has pushed its
request is in the log of the queue its object name hashes to, once, with its values.
-/
import GcAdaptor.ClientOpQueue

set_option autoImplicit false

namespace GcAdaptor.QueueLock

open GcAdaptor.Interleave GcAdaptor.NetworkModule GcAdaptor.ClientOpQueue

/-! ## The mutex -/

/-- `who` is at a place where it has the mutex of queue `q`. -/
def holding (cfg : Config) (s : State) (q : ℕ) : Holder → Bool
  | .handler => (s.queue q).pc.holds
  | .dispatch k => (s.calls[k]?).any fun c => c.pc.holds && cfg.index c.op.name = q
  | .stopper => s.stop = .unlock q

def LockInv (cfg : Config) (s : State) : Prop :=
  ∀ q who, holding cfg s q who = true ↔ (s.queue q).lock = some who

/-- What `who` does to a mutex: nothing, take it when it is free, or release it. -/
def LockMove (who : Holder) (before after : Bool) (l m : Option Holder) : Prop :=
  (m = l ∧ after = before) ∨ (l = none ∧ m = some who ∧ after = true) ∨
    (before = true ∧ after = false ∧ m = none)

section Mutex

variable {cfg : Config} {s t : State} {a : Act} {who v : Holder} {before after : Bool}
variable {l m : Option Holder} {q k : ℕ} {now : UInt64} {c d : Call} {x y : OpQueue}

theorem LockMove.self (h : LockMove who before after l m) (hi : before = true ↔ l = some who) :
    after = true ↔ m = some who := by
  rcases h with ⟨rfl, rfl⟩ | ⟨rfl, rfl, rfl⟩ | ⟨rfl, rfl, rfl⟩
  · exact hi
  · simp
  · simp

/-- Nobody else's hold is affected. -/
theorem LockMove.other (h : LockMove who before after l m) (hi : before = true ↔ l = some who)
    (hne : v ≠ who) : m = some v ↔ l = some v := by
  rcases h with ⟨rfl, rfl⟩ | ⟨rfl, rfl, rfl⟩ | ⟨rfl, rfl, rfl⟩
  · exact .rfl
  · simp [hne.symm]
  · rw [hi.mp rfl]
    simp [hne.symm]

/-- One party moved, on one queue. -/
theorem LockInv.move (q : ℕ) (who : Holder) (h : LockInv cfg s)
    (hother : ∀ r v, (r, v) ≠ (q, who) → holding cfg t r v = holding cfg s r v)
    (hlock : ∀ r ≠ q, (t.queue r).lock = (s.queue r).lock)
    (hmove : LockMove who (holding cfg s q who) (holding cfg t q who) (s.queue q).lock
      (t.queue q).lock) : LockInv cfg t := by
  intro r v
  by_cases hr : r = q
  · subst hr
    by_cases hv : v = who
    · subst hv
      exact hmove.self (h r v)
    · -- another party at the same mutex
      rw [hother r v (by simp [hv]), hmove.other (h r who) hv]
      exact h r v
  · rw [hother r v (by simp [hr]), hlock r hr]
    exact h r v

theorem enqueue_lockMove (h : Enqueue cfg.queueMaxCapacity k now c x d y) :
    LockMove (.dispatch k) c.pc.holds d.pc.holds x.lock y.lock := by
  cases h with
  | lock hpc hfree => exact .inr (.inl ⟨hfree, rfl, rfl⟩)
  | wait hpc => exact .inr (.inr ⟨by rw [hpc]; rfl, rfl, rfl⟩)
  | relock hpc hfree => exact .inr (.inl ⟨hfree, rfl, rfl⟩)
  | limitWrite hpc => exact .inr (.inr ⟨by rw [hpc]; rfl, rfl, rfl⟩)
  | pass hpc | pushReq hpc | pushTs hpc | pushPeriod hpc | notify hpc =>
    exact .inl ⟨rfl, by rw [hpc]; rfl⟩

theorem enqueue_op (h : Enqueue cfg.queueMaxCapacity k now c x d y) : d.op = c.op := by
  cases h <;> rfl

theorem holds_notify (x : OpQueue) : x.notify.pc.holds = x.pc.holds := by
  unfold OpQueue.notify
  by_cases h : x.pc = .sleeping
  · simp [h, HandlerPc.holds]
  · simp [h]

theorem enqueue_pc_holds (h : Enqueue cfg.queueMaxCapacity k now c x d y) :
    y.pc.holds = x.pc.holds := by
  cases h with
  | notify => exact holds_notify x
  | _ => rfl

theorem handle_lockMove {finish : Bool} (h : Handle finish x y) :
    LockMove .handler x.pc.holds y.pc.holds x.lock y.lock := by
  cases h with
  | lock _ hfree => exact .inr (.inl ⟨hfree, rfl, rfl⟩)
  | finish hpc | sleep hpc | unlock hpc => exact .inr (.inr ⟨by rw [hpc]; rfl, rfl, rfl⟩)
  | goOn hpc | swap hpc | swapReq hpc | swapTs hpc | swapPeriod hpc | notifyCond hpc =>
    exact .inl ⟨rfl, by rw [hpc]; rfl⟩
  | dealt hpc | next hpc | retry hpc | allocated hpc | popTs hpc | accepted hpc | rejected hpc =>
    exact .inl ⟨rfl, by rw [hpc]; rfl⟩
  | getCas hpc | doOneOps hpc | woken hpc => exact .inl ⟨rfl, by rw [hpc]; rfl⟩

/-- A step of the handler of `q` that leaves the calls alone. -/
theorem LockInv.onQueue (h : LockInv cfg s) (hcalls : t.calls = s.calls)
    (hqueue : t.queue = Function.update s.queue q y) (hstop : t.stop = s.stop)
    (hmove : LockMove .handler (s.queue q).pc.holds y.pc.holds (s.queue q).lock y.lock) :
    LockInv cfg t := by
  refine h.move q .handler ?_ ?_ ?_
  · intro r v hne
    cases v with
    | handler =>
      have hr : r ≠ q := by simpa using hne
      simp only [holding, hqueue, Function.update_of_ne hr]
    | dispatch k => simp only [holding, hcalls]
    | stopper => simp only [holding, hstop]
  · intro r hr
    rw [hqueue, Function.update_of_ne hr]
  · rw [hqueue]
    simpa [holding, hqueue] using hmove

theorem getElem?_setCall (hk : s.calls[k]? = some c) (hcalls : t.calls = s.calls.set k d) (j : ℕ) :
    t.calls[j]? = if k = j then some d else s.calls[j]? := by
  have hlt : k < s.calls.length := (List.getElem?_eq_some_iff.mp hk).1
  rw [hcalls, List.getElem?_set]
  split_ifs <;> rfl

/-- A step of a call on its queue. -/
theorem LockInv.onCall (h : LockInv cfg s) (hk : s.calls[k]? = some c)
    (hq : q = cfg.index c.op.name) (hcalls : t.calls = s.calls.set k d) (hop : d.op = c.op)
    (hqueue : t.queue = Function.update s.queue q y) (hstop : t.stop = s.stop)
    (hpc : y.pc.holds = (s.queue q).pc.holds)
    (hmove : LockMove (.dispatch k) c.pc.holds d.pc.holds (s.queue q).lock y.lock) :
    LockInv cfg t := by
  have hget := getElem?_setCall hk hcalls
  refine h.move q (.dispatch k) ?_ ?_ ?_
  · intro r v hne
    cases v with
    | handler =>
      simp only [holding, hqueue]
      by_cases hr : r = q
      · subst hr
        rw [Function.update_self, hpc]
      · rw [Function.update_of_ne hr]
    | dispatch j =>
      simp only [holding, hget]
      split_ifs with hkj
      · -- call `k` itself, seen from another queue
        subst hkj
        have hr : q ≠ r := fun hqr => hne (by rw [hqr])
        rw [hk]
        simp [hop, ← hq, hr]
      · rfl
    | stopper => simp only [holding, hstop]
  · intro r hr
    rw [hqueue, Function.update_of_ne hr]
  · rw [hqueue]
    simpa [holding, hget, hk, hop, ← hq] using hmove

theorem notified_holding (r : ℕ) (j : ℕ) :
    ((s.calls.map (Call.notified cfg q))[j]?).any (fun c => c.pc.holds && cfg.index c.op.name = r) =
      (s.calls[j]?).any fun c => c.pc.holds && cfg.index c.op.name = r := by
  rw [List.getElem?_map]
  cases hj : s.calls[j]? with
  | none => rfl
  | some c =>
    simp only [Option.map_some, Option.any_some, Call.notified]
    by_cases hw : c.pc = .waiting ∧ cfg.index c.op.name = q
    · rw [if_pos hw, hw.1]
      rfl
    · rw [if_neg hw]

/-- A step of `StopThread`, on queue `q` if on any. -/
theorem LockInv.onStop (h : LockInv cfg s) (hcalls : t.calls = s.calls)
    (hqueue : t.queue = Function.update s.queue q y)
    (hpc : y.pc.holds = (s.queue q).pc.holds)
    (hstop : ∀ r ≠ q, (t.stop = .unlock r ↔ s.stop = .unlock r))
    (hmove : LockMove .stopper (s.stop = .unlock q) (t.stop = .unlock q) (s.queue q).lock y.lock) :
    LockInv cfg t := by
  refine h.move q .stopper ?_ ?_ ?_
  · intro r v hne
    cases v with
    | handler =>
      simp only [holding, hqueue]
      by_cases hr : r = q
      · subst hr
        rw [Function.update_self, hpc]
      · rw [Function.update_of_ne hr]
    | dispatch k => simp only [holding, hcalls]
    | stopper =>
      have hr : r ≠ q := by simpa using hne
      simp only [holding, hstop r hr]
  · intro r hr
    rw [hqueue, Function.update_of_ne hr]
  · rw [hqueue, Function.update_self]
    exact hmove

/-- One that takes and releases no mutex. -/
theorem LockInv.onStopFree (h : LockInv cfg s) (hcalls : t.calls = s.calls)
    (hqueue : t.queue = Function.update s.queue q y)
    (hpc : y.pc.holds = (s.queue q).pc.holds) (hlock : y.lock = (s.queue q).lock)
    (hbefore : ∀ r, s.stop ≠ .unlock r) (hafter : ∀ r, t.stop ≠ .unlock r) : LockInv cfg t := by
  refine h.onStop hcalls hqueue hpc (fun r _ => iff_of_false (hafter r) (hbefore r))
    (.inl ⟨hlock, ?_⟩)
  simp [hbefore q, hafter q]

theorem stopper_lockInv (h : LockInv cfg s) (hst : s.stopper cfg = some t) : LockInv cfg t := by
  cases stopper_cases hst with
  | @lock i hs hfree =>
    refine h.onStop (q := i) rfl rfl rfl ?_ (.inr (.inl ⟨hfree, rfl, by simp⟩))
    intro r hr
    simp [hs, hr.symm]
  | @unlock i hs =>
    refine h.onStop (q := i) rfl rfl rfl ?_ (.inr (.inr ⟨by simp [hs], by simp, rfl⟩))
    intro r hr
    simp [hs, hr.symm]
  | @setFlag i hs =>
    refine h.onStopFree (q := i) rfl (Function.update_eq_self _ _).symm rfl rfl (by simp [hs]) ?_
    intro r
    simp only
    split_ifs <;> simp
  | @notify i hs =>
    refine h.onStopFree (q := i) rfl rfl (holds_notify _) rfl (by simp [hs]) ?_
    intro r
    simp only
    split_ifs <;> simp
  | @join i hs _ =>
    refine h.onStopFree (q := i) rfl (Function.update_eq_self _ _).symm rfl rfl (by simp [hs]) ?_
    intro r
    simp only
    split_ifs <;> simp

theorem step_lockInv (h : LockInv cfg s) (hs : step cfg s a = some t) : LockInv cfg t := by
  cases step_cases hs with
  | call =>
    intro r v
    rw [← h r v]
    cases v with
    | dispatch j =>
      simp only [holding, List.getElem?_append]
      split_ifs with hj
      · rfl
      · -- the new call has no mutex
        rw [List.getElem?_eq_none (not_lt.mp hj), List.getElem?_singleton]
        split_ifs <;> simp [CallPc.holds]
    | _ => rfl
  | dispatch hk hq he =>
    exact h.onCall hk hq rfl (enqueue_op he) rfl rfl (enqueue_pc_holds he) (enqueue_lockMove he)
  | wakeCall hk hpc =>
    refine h.onCall hk rfl rfl rfl (Function.update_eq_self _ _).symm rfl rfl (.inl ⟨rfl, ?_⟩)
    rw [hpc]
    rfl
  | handler hh | process hh | wakeHandler hh => exact h.onQueue rfl rfl rfl (handle_lockMove hh)
  | @notifyCond q _ y hh =>
    -- waking the calls gives none of them the mutex
    have hq : LockInv cfg (s.setQueue q y) := h.onQueue rfl rfl rfl (handle_lockMove hh)
    intro r v
    rw [← hq r v]
    cases v with
    | dispatch j =>
      simp only [holding, notified_holding]
      rfl
    | _ => rfl
  | stopBegin hidle =>
    intro r v
    rw [← h r v]
    cases v with
    | stopper => simp [holding, hidle]
    | _ => rfl
  | stopper hst => exact stopper_lockInv h hst

theorem LockInv.init : LockInv cfg {} := by
  intro q v
  cases v <;> simp [holding, HandlerPc.holds]

end Mutex

/-! ## What has been pushed -/

/-- The call has pushed its request. -/
def pushed : CallPc → Bool
  | .pushTs | .pushPeriod | .notify | .limitWrite | .returned => true
  | _ => false

/-- The entry a call makes. -/
def entryOf (k : ℕ) (c : Call) : Entry := ⟨k, c.ts, c.period⟩

/-- Each entry of a queue's log is that of a call that goes to this queue, and each call that
has pushed has one. -/
structure EnqInv (cfg : Config) (s : State) : Prop where
  entry : ∀ {q e}, e ∈ (s.queue q).enqueued → ∃ c, s.calls[e.op]? = some c ∧
    cfg.index c.op.name = q ∧ pushed c.pc = true ∧ e = entryOf e.op c
  logged : ∀ {k c}, s.calls[k]? = some c → pushed c.pc = true →
    entryOf k c ∈ (s.queue (cfg.index c.op.name)).enqueued
  nodup : ∀ q, ((s.queue q).enqueued.map (·.op)).Nodup

section Pushed

variable {cfg : Config} {s t : State} {a : Act} {q k : ℕ} {now : UInt64} {c d : Call}
variable {x y : OpQueue}

theorem EnqInv.init : EnqInv cfg {} := ⟨by simp, by simp, by simp⟩

/-- A call's step pushes its request once, and changes nothing of it afterwards. -/
theorem enqueue_log (h : Enqueue cfg.queueMaxCapacity k now c x d y) :
    (y.enqueued = x.enqueued ∧ pushed d.pc = pushed c.pc ∧
      (pushed c.pc = true → entryOf k d = entryOf k c)) ∨
    (y.enqueued = x.enqueued ++ [entryOf k d] ∧ pushed c.pc = false ∧ pushed d.pc = true) := by
  cases h with
  | pushReq hpc => exact .inr ⟨rfl, by rw [hpc]; rfl, rfl⟩
  | pass hpc => exact .inl ⟨rfl, by rw [hpc]; rfl, by simp [hpc, pushed]⟩
  | relock hpc => exact .inl ⟨rfl, by rw [hpc]; rfl, by simp [hpc, pushed]⟩
  | lock hpc | wait hpc | pushTs hpc | pushPeriod hpc | notify hpc | limitWrite hpc =>
    exact .inl ⟨rfl, by rw [hpc]; rfl, fun _ => rfl⟩

/-- No call pushes, and none changes what it has pushed. -/
theorem EnqInv.keep (h : EnqInv cfg s) (hlog : ∀ q, (t.queue q).enqueued = (s.queue q).enqueued)
    (hcalls : ∀ k d, t.calls[k]? = some d → pushed d.pc = true →
      ∃ c, s.calls[k]? = some c ∧ pushed c.pc = true ∧ d.op = c.op ∧ entryOf k d = entryOf k c)
    (hkept : ∀ k c, s.calls[k]? = some c → pushed c.pc = true →
      ∃ d, t.calls[k]? = some d ∧ pushed d.pc = true ∧ d.op = c.op ∧ entryOf k d = entryOf k c) :
    EnqInv cfg t := by
  refine ⟨?_, ?_, ?_⟩
  · intro q e he
    rw [hlog] at he
    obtain ⟨c, hc, hidx, hpush, heq⟩ := h.entry he
    obtain ⟨d, hd, hpush', hop, hent⟩ := hkept _ c hc hpush
    exact ⟨d, hd, hop ▸ hidx, hpush', heq.trans hent.symm⟩
  · intro k d hd hpush
    obtain ⟨c, hc, hpush', hop, hent⟩ := hcalls k d hd hpush
    rw [hlog, hop, hent]
    exact h.logged hc hpush'
  · intro q
    rw [hlog]
    exact h.nodup q

theorem enqueued_update (hy : y.enqueued = (s.queue q).enqueued) (r : ℕ) :
    (Function.update s.queue q y r).enqueued = (s.queue r).enqueued := by
  by_cases hr : r = q
  · subst hr
    rw [Function.update_self, hy]
  · rw [Function.update_of_ne hr]

/-- A call moves without a push. -/
theorem EnqInv.setCall (h : EnqInv cfg s) (hk : s.calls[k]? = some c)
    (hcalls : t.calls = s.calls.set k d)
    (hlog : ∀ q, (t.queue q).enqueued = (s.queue q).enqueued) (hop : d.op = c.op)
    (hpush : pushed d.pc = pushed c.pc)
    (hent : pushed c.pc = true → entryOf k d = entryOf k c) : EnqInv cfg t := by
  have hget := getElem?_setCall hk hcalls
  refine h.keep hlog ?_ ?_
  · intro j e hj hpe
    rw [hget] at hj
    split_ifs at hj with hkj
    · obtain rfl : d = e := Option.some.inj hj
      rw [hpush] at hpe
      exact ⟨c, hkj ▸ hk, hpe, hop, hkj ▸ hent hpe⟩
    · exact ⟨e, hj, hpe, rfl, rfl⟩
  · intro j e hj hpe
    by_cases hkj : k = j
    · subst hkj
      obtain rfl : c = e := Option.some.inj (hk.symm.trans hj)
      exact ⟨d, by rw [hget, if_pos rfl], hpush.trans hpe, hop, hent hpe⟩
    · exact ⟨e, by rw [hget, if_neg hkj, hj], hpe, rfl, rfl⟩

/-- Before its push a call is in no log. -/
theorem EnqInv.fresh (h : EnqInv cfg s) (hk : s.calls[k]? = some c) (hno : pushed c.pc = false)
    (q : ℕ) : k ∉ (s.queue q).enqueued.map (·.op) := by
  intro hmem
  obtain ⟨e, hlogged, rfl⟩ := List.mem_map.mp hmem
  obtain ⟨c', hc', -, hpush, -⟩ := h.entry hlogged
  obtain rfl : c = c' := Option.some.inj (hk.symm.trans hc')
  simp [hno] at hpush

/-- A call pushes its request onto its queue. -/
theorem EnqInv.push (h : EnqInv cfg s) (hk : s.calls[k]? = some c)
    (hcalls : t.calls = s.calls.set k d) (hop : d.op = c.op) (hno : pushed c.pc = false)
    (hyes : pushed d.pc = true)
    (hlog : ∀ q, (t.queue q).enqueued = if q = cfg.index c.op.name
      then (s.queue q).enqueued ++ [entryOf k d] else (s.queue q).enqueued) : EnqInv cfg t := by
  have hget := getElem?_setCall hk hcalls
  -- the entries that were there are of other calls
  have hold : ∀ {q e}, e ∈ (s.queue q).enqueued → ∃ c', t.calls[e.op]? = some c' ∧
      cfg.index c'.op.name = q ∧ pushed c'.pc = true ∧ e = entryOf e.op c' := by
    intro q e he
    obtain ⟨c', hc', hrest⟩ := h.entry he
    have hne : k ≠ e.op := fun hke => h.fresh hk hno q (hke ▸ List.mem_map_of_mem he)
    exact ⟨c', by rw [hget, if_neg hne, hc'], hrest⟩
  refine ⟨?_, ?_, ?_⟩
  · intro q e he
    rw [hlog] at he
    split_ifs at he with hq
    · rcases List.mem_append.mp he with he | he
      · exact hold he
      · rw [List.mem_singleton.mp he]
        exact ⟨d, by rw [hget]; exact if_pos rfl, by rw [hop, hq], hyes, rfl⟩
    · exact hold he
  · intro j e hj hpe
    rw [hget] at hj
    rw [hlog]
    split_ifs at hj with hkj
    · obtain rfl : d = e := Option.some.inj hj
      subst hkj
      rw [hop, if_pos rfl]
      exact List.mem_append_right _ (List.mem_singleton_self _)
    · have hmem := h.logged hj hpe
      split_ifs
      · exact List.mem_append_left _ hmem
      · exact hmem
  · intro q
    rw [hlog]
    split_ifs
    · rw [List.map_append, List.nodup_append]
      refine ⟨h.nodup q, by simp, ?_⟩
      rintro u hu v hv rfl
      obtain rfl : u = k := by simpa [entryOf] using hv
      exact h.fresh hk hno q hu
    · exact h.nodup q

theorem EnqInv.dispatch (h : EnqInv cfg s) (hk : s.calls[k]? = some c)
    (hq : q = cfg.index c.op.name)
    (he : Enqueue cfg.queueMaxCapacity k now c (s.queue q) d y) :
    EnqInv cfg ((s.setCall k d).setQueue q y) := by
  have hop := enqueue_op he
  rcases enqueue_log he with ⟨hlog, hpush, hent⟩ | ⟨hlog, hno, hyes⟩
  · exact h.setCall hk rfl (enqueued_update hlog) hop hpush hent
  · apply h.push hk rfl hop hno hyes
    intro r
    rw [← hq]
    split_ifs with hr
    · subst hr
      simp only [State.setQueue, Function.update_self, hlog]
    · simp only [State.setQueue, Function.update_of_ne hr, State.setCall]

/-- The handler pushes nothing. -/
theorem handle_enqueued {finish : Bool} (h : Handle finish x y) : y.enqueued = x.enqueued := by
  cases h <;> rfl

/-- A step that touches no call. -/
theorem EnqInv.sameCalls (h : EnqInv cfg s) (hcalls : t.calls = s.calls)
    (hlog : ∀ q, (t.queue q).enqueued = (s.queue q).enqueued) : EnqInv cfg t := by
  refine h.keep hlog ?_ ?_ <;> rw [hcalls] <;> exact fun k c hc hp => ⟨c, hc, hp, rfl, rfl⟩

/-- `StopThread` changes nothing of a queue but its mutex and, by a notification, the place of
its handler; `f` is what else one may look at. -/
theorem stopper_frame {β : Type*} (f : OpQueue → β)
    (hlock : ∀ x l, f { x with lock := l } = f x) (hnotify : ∀ x : OpQueue, f x.notify = f x)
    (h : s.stopper cfg = some t) : t.calls = s.calls ∧ ∀ q, f (t.queue q) = f (s.queue q) := by
  have hset : ∀ (i : ℕ) (y : OpQueue), f y = f (s.queue i) →
      ∀ q, f (Function.update s.queue i y q) = f (s.queue q) := by
    intro i y hy q
    rw [Function.update_apply]
    split_ifs with hq
    · rw [hy, hq]
    · rfl
  cases stopper_cases h with
  | @lock i | @unlock i => exact ⟨rfl, hset i _ (hlock _ _)⟩
  | @notify i => exact ⟨rfl, hset i _ (hnotify _)⟩
  | setFlag | join => exact ⟨rfl, fun _ => rfl⟩

theorem step_enqInv (h : EnqInv cfg s) (hs : step cfg s a = some t) : EnqInv cfg t := by
  cases step_cases hs with
  | call =>
    refine h.keep (fun _ => rfl) ?_ ?_
    · intro j e hj hpe
      simp only [List.getElem?_append] at hj
      split_ifs at hj
      · exact ⟨e, hj, hpe, rfl, rfl⟩
      · rw [List.mem_singleton.mp (List.mem_of_getElem? hj)] at hpe
        simp [pushed] at hpe
    · intro j e hj hpe
      exact ⟨e, getElem?_append_of_some hj, hpe, rfl, rfl⟩
  | dispatch hk hq he => exact h.dispatch hk hq he
  | wakeCall hk hpc =>
    refine h.setCall hk rfl (fun _ => rfl) rfl ?_ ?_
    · rw [hpc]
      rfl
    · simp [hpc, pushed]
  | handler hh | process hh | wakeHandler hh =>
    exact h.sameCalls rfl (enqueued_update (handle_enqueued hh))
  | @notifyCond q _ _ hh =>
    -- the calls that are notified have not pushed, before and after
    have hsame : ∀ c : Call, pushed (c.notified cfg q).pc = pushed c.pc := by
      intro c
      unfold Call.notified
      by_cases hw : c.pc = .waiting ∧ cfg.index c.op.name = q
      · simp [hw, pushed]
      · simp [hw]
    refine h.keep (enqueued_update (handle_enqueued hh)) ?_ ?_
    · intro j e hj hpe
      simp only [List.getElem?_map] at hj
      obtain ⟨c, hc, rfl⟩ := Option.map_eq_some_iff.mp hj
      exact ⟨c, hc, hsame c ▸ hpe, rfl, rfl⟩
    · intro j e hj hpe
      exact ⟨e.notified cfg q, by simp [hj], (hsame e).trans hpe, rfl, rfl⟩
  | stopBegin => exact h.sameCalls rfl fun _ => rfl
  | stopper hst =>
    obtain ⟨hcalls, hlog⟩ := stopper_frame (·.enqueued) (fun _ _ => rfl) (fun _ => rfl) hst
    exact h.sameCalls hcalls hlog

end Pushed

end GcAdaptor.QueueLock
