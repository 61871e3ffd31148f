/-
The server's queues lose, duplicate and reorder nothing.

`Books`: for each queue, the requests, the timestamps and the periods pushed so far are each
the ones done with, then those in the handler's hands, then those in its own queues, then
those in the shared ones, then what a dispatch thread in the middle of `EnQueue` has yet to
push. The three equations say nothing about each other; that the queues have equal lengths,
and so that the values stay with their request, follows with `DealOk`, the lengths of the
handler's three queues at each place of its loop. `Awake` is the absence of lost wakeups.

All of it holds in every run, also in one with `StopThread`.
-/
import GcAdaptor.QueueLock

set_option autoImplicit false

namespace GcAdaptor.OpHandlerOrder

open GcAdaptor.Wire GcAdaptor.Cxx GcAdaptor.MsgModule GcAdaptor.Interleave
open GcAdaptor.NetworkModule GcAdaptor.ClientOpQueue GcAdaptor.QueueLock

/-! ## The books of one queue -/

/-- The request the handler has between `ProcessOpReq` and the end of `DoOneOps`. -/
def inHand (x : OpQueue) : List Entry :=
  match x.pc with
  | .getCas e | .doOneOps e => [e]
  | _ => []

/-- The timestamp it has popped and `ProcessOpReq` has not yet matched. -/
def tsInHand (x : OpQueue) : List UInt64 :=
  match x.pc with
  | .process ts => [ts]
  | _ => []

/-- The requests that have left the deal queue, with the values they were processed with. -/
def taken (x : OpQueue) : List Entry := x.processed ++ inHand x

/-- What a call in `EnQueue` has yet to push onto `tsQueue`. -/
def tsDue (c : Call) : List UInt64 := if c.pc = .pushTs then [c.ts] else []

/-- What a call in `EnQueue` has yet to push onto `period`. -/
def periodDue (c : Call) : List UInt64 :=
  if c.pc = .pushTs ∨ c.pc = .pushPeriod then [c.period] else []

/-- The handler's three queues at each place of its loop. -/
def DealOk (x : OpQueue) : Prop :=
  match x.pc with
  | .swapTs => x.reqQueue = [] ∧ x.dealTs = [] ∧ x.periodTs = []
  | .swapPeriod =>
    x.reqQueue = [] ∧ x.dealTs.length = x.dealQueue.length ∧ x.periodTs = []
  | .process _ =>
    x.dealTs.length + 1 = x.dealQueue.length ∧ x.periodTs.length = x.dealQueue.length
  | .alloc | .popTs =>
    0 < x.dealQueue.length ∧ x.dealTs.length = x.dealQueue.length ∧
      x.periodTs.length = x.dealQueue.length
  | .notifyCond | .unlock | .dealEmpty | .getCas _ | .doOneOps _ =>
    x.dealTs.length = x.dealQueue.length ∧ x.periodTs.length = x.dealQueue.length
  | .start | .test | .empty | .swapReq | .relock | .sleeping | .woken | .exited =>
    x.dealQueue = [] ∧ x.dealTs = [] ∧ x.periodTs = []

/-- The three equations, with what the mutex holder has yet to push. -/
structure Books (x : OpQueue) (tsLeft periodLeft : List UInt64) : Prop where
  ops : x.enqueued.map (·.op) = (taken x).map (·.op) ++ x.dealQueue ++ x.reqQueue
  tss : x.enqueued.map (·.ts) =
    (taken x).map (·.ts) ++ tsInHand x ++ x.dealTs ++ x.tsQueue ++ tsLeft
  periods : x.enqueued.map (·.period) =
    (taken x).map (·.period) ++ x.periodTs ++ x.period ++ periodLeft
  deal : DealOk x

section Books

variable {cfg : Config} {q k : ℕ} {now : UInt64} {c d : Call} {x y : OpQueue}
variable {tsLeft periodLeft : List UInt64}

/-- In numbers. -/
theorem Books.lengths (h : Books x tsLeft periodLeft) :
    (taken x).length + x.dealQueue.length + x.reqQueue.length = x.enqueued.length ∧
    (taken x).length + (tsInHand x).length + x.dealTs.length + x.tsQueue.length + tsLeft.length =
      x.enqueued.length ∧
    (taken x).length + x.periodTs.length + x.period.length + periodLeft.length =
      x.enqueued.length := by
  have hops := congrArg List.length h.ops
  have htss := congrArg List.length h.tss
  have hperiods := congrArg List.length h.periods
  simp only [List.length_append, List.length_map] at hops htss hperiods
  omega

/-- Away from the mutex `DealOk` reads the handler's own queues only. -/
theorem dealOk_congr (h : DealOk x) (hfree : x.pc.holds = false) (hpc : y.pc = x.pc)
    (hd : y.dealQueue = x.dealQueue) (ht : y.dealTs = x.dealTs) (hp : y.periodTs = x.periodTs) :
    DealOk y := by
  unfold DealOk at h ⊢
  rw [hpc, hd, ht, hp]
  cases hx : x.pc with
  | swapTs => simp [hx, HandlerPc.holds] at hfree
  | swapPeriod => simp [hx, HandlerPc.holds] at hfree
  | _ => simpa only [hx] using h

/-- Pushing onto the shared queues. -/
theorem Books.push {e : List Entry} {ts ps ts' ps' : List UInt64}
    (h : Books x ts ps) (hfree : x.pc.holds = false) (hpc : y.pc = x.pc)
    (hdeal : y.dealQueue = x.dealQueue ∧ y.dealTs = x.dealTs ∧ y.periodTs = x.periodTs)
    (hproc : y.processed = x.processed) (henq : y.enqueued = x.enqueued ++ e)
    (hops : x.reqQueue ++ e.map (·.op) = y.reqQueue)
    (htss : x.tsQueue ++ (ts ++ e.map (·.ts)) = y.tsQueue ++ ts')
    (hperiods : x.period ++ (ps ++ e.map (·.period)) = y.period ++ ps') : Books y ts' ps' := by
  obtain ⟨hd, ht, hp⟩ := hdeal
  have htaken : taken y = taken x := by simp [taken, inHand, hproc, hpc]
  have hhand : tsInHand y = tsInHand x := by simp [tsInHand, hpc]
  refine ⟨?_, ?_, ?_, dealOk_congr h.deal hfree hpc hd ht hp⟩
  · rw [henq, List.map_append, h.ops, htaken, hd, ← hops]
    simp only [List.append_assoc]
  · rw [henq, List.map_append, h.tss, htaken, hhand, ht]
    simp only [List.append_assoc] at htss ⊢
    rw [htss]
  · rw [henq, List.map_append, h.periods, htaken, hp]
    simp only [List.append_assoc] at hperiods ⊢
    rw [hperiods]

theorem Books.notify (h : Books x tsLeft periodLeft) : Books x.notify tsLeft periodLeft := by
  unfold OpQueue.notify
  by_cases hpc : x.pc = .sleeping
  · obtain ⟨hops, htss, hperiods, hdeal⟩ := h
    simp only [DealOk, hpc, taken, inHand, tsInHand] at hops htss hperiods hdeal
    rw [if_pos hpc]
    exact ⟨hops, htss, hperiods, hdeal⟩
  · rw [if_neg hpc]
    exact h

theorem Books.enqueue (h : Books x (tsDue c) (periodDue c)) (hfree : x.pc.holds = false)
    (he : Enqueue cfg.queueMaxCapacity k now c x d y) : Books y (tsDue d) (periodDue d) := by
  cases he with
  | lock hpc | wait hpc | pass hpc | relock hpc | limitWrite hpc =>
    refine h.push (e := []) hfree rfl ⟨rfl, rfl, rfl⟩ rfl (by simp) (by simp) ?_ ?_ <;>
      simp [tsDue, periodDue, hpc]
  | pushReq hpc =>
    refine h.push (e := [⟨k, c.ts, c.period⟩]) hfree rfl ⟨rfl, rfl, rfl⟩ rfl rfl rfl ?_ ?_ <;>
      simp [tsDue, periodDue, hpc]
  | pushTs hpc | pushPeriod hpc =>
    refine h.push (e := []) hfree rfl ⟨rfl, rfl, rfl⟩ rfl (by simp) (by simp) ?_ ?_ <;>
      simp [tsDue, periodDue, hpc]
  | notify hpc =>
    have hsame : tsDue { c with pc := .limitWrite } = tsDue c ∧
        periodDue { c with pc := .limitWrite } = periodDue c := by
      simp [tsDue, periodDue, hpc]
    rw [hsame.1, hsame.2]
    exact h.notify

/-- A step of the handler that moves nothing between the queues. -/
theorem Books.moveOn (h : Books x tsLeft periodLeft)
    (hq : y.reqQueue = x.reqQueue ∧ y.tsQueue = x.tsQueue ∧ y.period = x.period)
    (hdeal : y.dealQueue = x.dealQueue ∧ y.dealTs = x.dealTs ∧ y.periodTs = x.periodTs)
    (hlog : y.enqueued = x.enqueued ∧ taken y = taken x ∧ tsInHand y = tsInHand x)
    (hok : DealOk y) : Books y tsLeft periodLeft := by
  obtain ⟨hreq, hts, hperiod⟩ := hq
  obtain ⟨hd, hdt, hdp⟩ := hdeal
  obtain ⟨henq, htaken, hhand⟩ := hlog
  refine ⟨?_, ?_, ?_, hok⟩
  · rw [henq, htaken, hd, hreq]
    exact h.ops
  · rw [henq, htaken, hhand, hdt, hts]
    exact h.tss
  · rw [henq, htaken, hdp, hperiod]
    exact h.periods

/-- **The handler keeps the books.** While it has the mutex, nobody is in `EnQueue`. -/
theorem Books.handle {finish : Bool} (h : Books x tsLeft periodLeft)
    (hdue : x.pc.holds = true → tsLeft = [] ∧ periodLeft = []) (hh : Handle finish x y) :
    Books y tsLeft periodLeft := by
  have hlen := h.lengths
  have hdeal := h.deal
  have hbooks := h
  obtain ⟨hops, htss, hperiods, -⟩ := h
  cases hh with
  | lock hpc =>
    rcases hpc with hpc | hpc | hpc <;> simp only [DealOk, hpc] at hdeal <;>
      exact hbooks.moveOn ⟨rfl, rfl, rfl⟩ ⟨rfl, rfl, rfl⟩
        ⟨rfl, by simp [taken, inHand, hpc], by simp [tsInHand, hpc]⟩ hdeal
  | finish hpc | goOn hpc | sleep hpc | swap hpc | notifyCond hpc | unlock hpc | woken hpc =>
    simp only [DealOk, hpc] at hdeal
    exact hbooks.moveOn ⟨rfl, rfl, rfl⟩ ⟨rfl, rfl, rfl⟩
      ⟨rfl, by simp [taken, inHand, hpc], by simp [tsInHand, hpc]⟩ hdeal
  | allocated hpc | getCas hpc | doOneOps hpc =>
    simp only [DealOk, hpc] at hdeal
    exact hbooks.moveOn ⟨rfl, rfl, rfl⟩ ⟨rfl, rfl, rfl⟩
      ⟨rfl, by simp [taken, inHand, hpc], by simp [tsInHand, hpc]⟩ hdeal
  | retry hpc =>
    simp only [DealOk, hpc] at hdeal
    exact hbooks.moveOn ⟨rfl, rfl, rfl⟩ ⟨rfl, rfl, rfl⟩
      ⟨rfl, by simp [taken, inHand, hpc], by simp [tsInHand, hpc]⟩ hdeal.2
  | dealt hpc hnil =>
    simp only [DealOk, hpc, hnil, List.length_nil, List.length_eq_zero_iff] at hdeal
    exact hbooks.moveOn ⟨rfl, rfl, rfl⟩ ⟨rfl, rfl, rfl⟩
      ⟨rfl, by simp [taken, inHand, hpc], by simp [tsInHand, hpc]⟩ ⟨hnil, hdeal⟩
  | next hpc hne =>
    simp only [DealOk, hpc] at hdeal
    exact hbooks.moveOn ⟨rfl, rfl, rfl⟩ ⟨rfl, rfl, rfl⟩
      ⟨rfl, by simp [taken, inHand, hpc], by simp [tsInHand, hpc]⟩
      ⟨List.length_pos_iff.mpr hne, hdeal⟩
  | swapReq hpc =>
    simp only [DealOk, hpc] at hdeal
    obtain ⟨hd, hdt, hdp⟩ := hdeal
    refine ⟨?_, ?_, ?_, hd, hdt, hdp⟩
    · simpa [taken, inHand, hpc, hd] using hops
    · simpa [taken, inHand, tsInHand, hpc] using htss
    · simpa [taken, inHand, hpc] using hperiods
  | swapTs hpc =>
    obtain ⟨rfl, rfl⟩ := hdue (by rw [hpc]; rfl)
    simp only [DealOk, hpc] at hdeal
    obtain ⟨hreq, hdt, hdp⟩ := hdeal
    -- the shared queue is empty, so what is in `tsQueue` belongs to the deal queue
    have hcount : x.tsQueue.length = x.dealQueue.length := by
      simp only [tsInHand, hpc, hreq, hdt, List.length_nil] at hlen
      omega
    refine ⟨?_, ?_, ?_, hreq, hcount, hdp⟩
    · simpa [taken, inHand, hpc] using hops
    · simpa [taken, inHand, tsInHand, hpc, hdt] using htss
    · simpa [taken, inHand, hpc] using hperiods
  | swapPeriod hpc =>
    obtain ⟨rfl, rfl⟩ := hdue (by rw [hpc]; rfl)
    simp only [DealOk, hpc] at hdeal
    obtain ⟨hreq, hdt, hdp⟩ := hdeal
    have hcount : x.period.length = x.dealQueue.length := by
      simp only [tsInHand, hpc, hreq, hdp, List.length_nil] at hlen
      omega
    refine ⟨?_, ?_, ?_, hdt, hcount⟩
    · simpa [taken, inHand, hpc] using hops
    · simpa [taken, inHand, tsInHand, hpc] using htss
    · simpa [taken, inHand, hpc, hdp] using hperiods
  | popTs hpc hts =>
    simp only [DealOk, hpc] at hdeal
    obtain ⟨-, hdt, hdp⟩ := hdeal
    rw [hts, List.length_cons] at hdt
    refine ⟨?_, ?_, ?_, hdt, hdp⟩
    · simpa [taken, inHand, hpc] using hops
    · simpa [taken, inHand, tsInHand, hpc, hts] using htss
    · simpa [taken, inHand, hpc] using hperiods
  | accepted hpc hd hp | rejected hpc hd hp =>
    -- `ProcessOpReq` pops the other two queues, whether it accepts or rejects
    simp only [DealOk, hpc, hd, hp, List.length_cons] at hdeal
    refine ⟨?_, ?_, ?_, by simp only; omega, by simp only; omega⟩
    · simpa [taken, inHand, hpc, hd] using hops
    · simpa [taken, inHand, tsInHand, hpc] using htss
    · simpa [taken, inHand, hpc, hp] using hperiods

end Books

/-! ## Every queue in every run -/

/-- The call that has the mutex of a queue. -/
def pusher (s : State) (q : ℕ) : Option Call :=
  match (s.queue q).lock with
  | some (.dispatch k) => s.calls[k]?
  | _ => none

/-- The call is in `EnQueue`, between its first push and its notification. -/
def notifies : CallPc → Bool
  | .pushTs | .pushPeriod | .notify => true
  | _ => false

/-- A handler asleep on a queue that is not empty is about to be notified. -/
def Awake (x : OpQueue) (notified : Bool) : Prop :=
  x.pc = .sleeping → x.reqQueue ≠ [] → notified = true

structure QueueOk (s : State) (q : ℕ) : Prop where
  books : Books (s.queue q) ((pusher s q).elim [] tsDue) ((pusher s q).elim [] periodDue)
  awake : Awake (s.queue q) ((pusher s q).elim false fun c => notifies c.pc)

section Runs

variable {cfg : Config} {s t : State} {a : Act} {q r k : ℕ} {now : UInt64} {c d : Call}
variable {y : OpQueue}

theorem lock_of_holds (h : LockInv cfg s) (hk : s.calls[k]? = some c) (hpc : c.pc.holds = true) :
    (s.queue (cfg.index c.op.name)).lock = some (.dispatch k) := by
  rw [← h]
  simp [holding, hk, hpc]

theorem pusher_of_holds (h : LockInv cfg s) (hk : s.calls[k]? = some c)
    (hpc : c.pc.holds = true) : pusher s (cfg.index c.op.name) = some c := by
  simp only [pusher, lock_of_holds h hk hpc, hk]

theorem pusher_mem (h : LockInv cfg s) (hp : pusher s q = some c) :
    c ∈ s.calls ∧ cfg.index c.op.name = q := by
  unfold pusher at hp
  split at hp
  · rename_i k hl
    refine ⟨List.mem_of_getElem? hp, ?_⟩
    have hholds := (h q (.dispatch k)).mpr hl
    simp only [holding, hp, Option.any_some, Bool.and_eq_true, decide_eq_true_eq] at hholds
    exact hholds.2
  · simp at hp

/-- The mutex and the call that has it are as before. -/
theorem pusher_congr (h : LockInv cfg s) (hlock : (t.queue r).lock = (s.queue r).lock)
    (hcalls : ∀ (j : ℕ) (c : Call), s.calls[j]? = some c → c.pc.holds = true →
      cfg.index c.op.name = r → t.calls[j]? = some c) : pusher t r = pusher s r := by
  unfold pusher
  rw [hlock]
  cases hl : (s.queue r).lock with
  | none => rfl
  | some who =>
    cases who with
    | dispatch j =>
      obtain ⟨c, hc, hholds⟩ := (Option.any_eq_true _ _).mp ((h r (.dispatch j)).mpr hl)
      simp only [Bool.and_eq_true, decide_eq_true_eq] at hholds
      simp only [hc, hcalls j c hc hholds.1 hholds.2]
    | _ => rfl

/-- The handler's and `StopThread`'s use of the mutex does not change who is in `EnQueue`. -/
theorem pusher_move {who : Holder} {before after : Bool} (hwho : ∀ k, who ≠ .dispatch k)
    (hi : before = true ↔ (s.queue r).lock = some who) (hcalls : t.calls = s.calls)
    (hmove : LockMove who before after (s.queue r).lock (t.queue r).lock) :
    pusher t r = pusher s r := by
  have hnone : ∀ (u : State) (l : Option Holder), (u.queue r).lock = l →
      (l = none ∨ l = some who) → pusher u r = none := by
    rintro u l hl (rfl | rfl)
    · simp only [pusher, hl]
    · cases who with
      | dispatch k => exact absurd rfl (hwho k)
      | _ => simp only [pusher, hl]
  rcases hmove with ⟨hl, -⟩ | ⟨hl, hm, -⟩ | ⟨hb, -, hm⟩
  · unfold pusher
    rw [hl, hcalls]
  · rw [hnone t _ hm (.inr rfl), hnone s _ hl (.inl rfl)]
  · rw [hnone t _ hm (.inl rfl), hnone s _ (hi.mp hb) (.inr rfl)]

theorem QueueOk.congr (h : QueueOk s r) (hqueue : t.queue r = s.queue r)
    (hpusher : pusher t r = pusher s r) : QueueOk t r := by
  refine ⟨?_, ?_⟩
  · rw [hqueue, hpusher]
    exact h.books
  · rw [hqueue, hpusher]
    exact h.awake

/-- What a call owes is seen at its queue while it can move. -/
theorem due_eq {β : Type} {f : Call → β} {z : β} (h : LockInv cfg s) (hk : s.calls[k]? = some c)
    (hq : q = cfg.index c.op.name) (hf : c.pc.holds = false → f c = z)
    (hfree : c.pc.holds = false → (s.queue q).lock = none) : (pusher s q).elim z f = f c := by
  subst hq
  cases hpc : c.pc.holds with
  | true => rw [pusher_of_holds h hk hpc, Option.elim_some]
  | false =>
    rw [hf hpc]
    simp only [pusher, hfree hpc, Option.elim_none]

theorem tsDue_nil (h : c.pc.holds = false) : tsDue c = [] := by
  unfold tsDue
  cases hpc : c.pc <;> simp_all [CallPc.holds]

theorem periodDue_nil (h : c.pc.holds = false) : periodDue c = [] := by
  unfold periodDue
  cases hpc : c.pc <;> simp_all [CallPc.holds]

/-- A call moves only with the mutex or when it is free. -/
theorem enqueue_free {x : OpQueue} (h : Enqueue cfg.queueMaxCapacity k now c x d y) :
    (c.pc.holds = false → x.lock = none) ∧ (d.pc.holds = false → y.lock = none) := by
  cases h with
  | lock hpc hfree => exact ⟨fun _ => hfree, by simp [CallPc.holds]⟩
  | relock hpc hfree => exact ⟨fun _ => hfree, by simp [CallPc.holds]⟩
  | wait hpc | limitWrite hpc => exact ⟨by simp [hpc, CallPc.holds], fun _ => rfl⟩
  | pass hpc | pushReq hpc | pushTs hpc | pushPeriod hpc | notify hpc =>
    exact ⟨by simp [hpc, CallPc.holds], by simp [CallPc.holds]⟩

theorem notifies_nil (h : c.pc.holds = false) : notifies c.pc = false := by
  cases hpc : c.pc <;> simp_all [CallPc.holds, notifies]

theorem Awake.notify {x : OpQueue} (b : Bool) : Awake x.notify b := by
  intro hsleep
  unfold OpQueue.notify at hsleep
  by_cases hx : x.pc = .sleeping <;> simp [hx] at hsleep

theorem Awake.enqueue {x : OpQueue} (h : Awake x (notifies c.pc))
    (he : Enqueue cfg.queueMaxCapacity k now c x d y) : Awake y (notifies d.pc) := by
  cases he with
  -- between the first push and the notification the call is counted as one to come
  | pushReq | pushTs | pushPeriod => exact fun _ _ => rfl
  | notify => exact .notify _
  | lock hpc | wait hpc | pass hpc | relock hpc | limitWrite hpc =>
    intro hsleep hne
    have hn := h hsleep hne
    simp [hpc, notifies] at hn

/-- With the mutex taken by a call, the handler is not at a place where it has it. -/
theorem handler_free (h : LockInv cfg s) (hk : s.calls[k]? = some c) (hq : q = cfg.index c.op.name)
    (hfree : c.pc.holds = false → (s.queue q).lock = none) : (s.queue q).pc.holds = false := by
  have hlock : (s.queue q).lock ≠ some .handler := by
    subst hq
    cases hpc : c.pc.holds with
    | true => simp [lock_of_holds h hk hpc]
    | false => simp [hfree hpc]
  have hhandler := h q .handler
  simp only [holding] at hhandler
  exact Bool.eq_false_iff.mpr fun hholds => hlock (hhandler.mp hholds)

theorem QueueOk.dispatch (hlock : LockInv cfg s) (h : ∀ r, QueueOk s r) (hk : s.calls[k]? = some c)
    (hq : q = cfg.index c.op.name)
    (he : Enqueue cfg.queueMaxCapacity k now c (s.queue q) d y) :
    QueueOk ((s.setCall k d).setQueue q y) r := by
  have hlock' : LockInv cfg ((s.setCall k d).setQueue q y) :=
    hlock.onCall hk hq rfl (enqueue_op he) rfl rfl (enqueue_pc_holds he) (enqueue_lockMove he)
  have hget : ∀ j, ((s.setCall k d).setQueue q y).calls[j]? =
      if k = j then some d else s.calls[j]? := getElem?_setCall hk rfl
  obtain ⟨hfree, hfree'⟩ := enqueue_free he
  -- its own queue, where what is due is due to this call, and the others
  by_cases hr : r = q
  · subst hr
    have hself : ((s.setCall k d).setQueue r y).queue r = y := Function.update_self ..
    have hkd : ((s.setCall k d).setQueue r y).calls[k]? = some d := by rw [hget, if_pos rfl]
    have hqd : r = cfg.index d.op.name := by rw [enqueue_op he, ← hq]
    have hfreed : d.pc.holds = false → (((s.setCall k d).setQueue r y).queue r).lock = none := by
      rw [hself]
      exact hfree'
    obtain ⟨hbooks, hawake⟩ := h r
    rw [due_eq hlock hk hq tsDue_nil hfree, due_eq hlock hk hq periodDue_nil hfree] at hbooks
    rw [due_eq hlock hk hq notifies_nil hfree] at hawake
    refine ⟨?_, ?_⟩
    · rw [due_eq hlock' hkd hqd tsDue_nil hfreed, due_eq hlock' hkd hqd periodDue_nil hfreed, hself]
      exact hbooks.enqueue (handler_free hlock hk hq hfree) he
    · rw [due_eq hlock' hkd hqd notifies_nil hfreed, hself]
      exact hawake.enqueue he
  · have hother : ((s.setCall k d).setQueue q y).queue r = s.queue r := Function.update_of_ne hr ..
    refine (h r).congr hother (pusher_congr hlock (by rw [hother]) ?_)
    intro j e hj _ hidx
    have hne : k ≠ j := by
      rintro rfl
      obtain rfl : c = e := Option.some.inj (hk.symm.trans hj)
      exact hr (hidx ▸ hq.symm)
    rw [hget, if_neg hne, hj]

/-- A step on `q` of the handler or of `StopThread`. -/
theorem QueueOk.onQueue (who : Holder) {before after : Bool} (hlock : LockInv cfg s)
    (h : ∀ r, QueueOk s r) (hcalls : t.calls = s.calls)
    (hqueue : t.queue = Function.update s.queue q y) (hwho : ∀ k, who ≠ .dispatch k)
    (hi : before = true ↔ (s.queue q).lock = some who)
    (hmove : LockMove who before after (s.queue q).lock y.lock)
    (hbooks : ∀ ts ps, ((s.queue q).pc.holds = true → ts = [] ∧ ps = []) →
      Books (s.queue q) ts ps → Books y ts ps)
    (hawake : ∀ b, Awake (s.queue q) b → Awake y b) : QueueOk t r := by
  by_cases hr : r = q
  · subst hr
    have hself : t.queue r = y := by rw [hqueue, Function.update_self]
    have hpusher : pusher t r = pusher s r :=
      pusher_move hwho hi hcalls (by rw [hself]; exact hmove)
    refine ⟨?_, ?_⟩
    · rw [hpusher, hself]
      refine hbooks _ _ (fun hholds => ?_) (h r).books
      -- the handler has the mutex, so no call is in `EnQueue`
      have hl : (s.queue r).lock = some .handler := (hlock r .handler).mp hholds
      simp [pusher, hl]
    · rw [hpusher, hself]
      exact hawake _ (h r).awake
  · have hother : t.queue r = s.queue r := by rw [hqueue, Function.update_of_ne hr]
    refine (h r).congr hother (pusher_congr hlock (by rw [hother]) fun j e hj _ _ => ?_)
    rw [hcalls, hj]

/-- The handler goes to sleep on an empty queue only. -/
theorem Awake.handle {x : OpQueue} {finish b : Bool} (h : Handle finish x y) : Awake y b := by
  intro hsleep hne
  cases h with
  | sleep _ hnil => exact absurd hnil hne
  | lock | finish | goOn | swap | swapReq | swapTs | swapPeriod | notifyCond | unlock | dealt
  | next | retry | allocated | popTs | accepted | rejected | getCas | doOneOps | woken =>
    simp at hsleep

theorem QueueOk.handle {finish : Bool} (hlock : LockInv cfg s) (h : ∀ r, QueueOk s r)
    (hh : Handle finish (s.queue q) y) : QueueOk (s.setQueue q y) r :=
  QueueOk.onQueue .handler hlock h rfl rfl (by simp) (hlock q .handler)
    (handle_lockMove hh) (fun _ _ hdue hb => hb.handle hdue hh) fun _ _ => .handle hh

theorem stopper_queueOk (hlock : LockInv cfg s) (h : ∀ r, QueueOk s r)
    (hst : s.stopper cfg = some t) : QueueOk t r := by
  cases stopper_cases hst with
  | @lock i _ hfree =>
    exact QueueOk.onQueue .stopper hlock h rfl rfl (by simp) (hlock i .stopper)
      (.inr (.inl ⟨hfree, rfl, rfl⟩)) (fun _ _ _ hb => ⟨hb.ops, hb.tss, hb.periods, hb.deal⟩)
      (fun _ ha => ha)
  | @unlock i hs =>
    exact QueueOk.onQueue .stopper hlock h rfl rfl (by simp) (hlock i .stopper)
      (.inr (.inr ⟨by simp [holding, hs], rfl, rfl⟩))
      (fun _ _ _ hb => ⟨hb.ops, hb.tss, hb.periods, hb.deal⟩) (fun _ ha => ha)
  | setFlag | join => exact (h r).congr rfl rfl
  | @notify i =>
    exact QueueOk.onQueue .stopper hlock h rfl rfl (by simp) (hlock i .stopper)
      (.inl ⟨rfl, rfl⟩) (fun _ _ _ hb => hb.notify) (fun b _ => .notify b)

theorem step_queueOk (hlock : LockInv cfg s) (h : ∀ r, QueueOk s r)
    (hs : step cfg s a = some t) : QueueOk t r := by
  cases step_cases hs with
  | call =>
    refine (h r).congr rfl (pusher_congr hlock rfl fun j e hj _ _ => ?_)
    exact getElem?_append_of_some hj
  | dispatch hk hq he => exact QueueOk.dispatch hlock h hk hq he
  | @wakeCall k c hk hpc =>
    refine (h r).congr rfl (pusher_congr hlock rfl fun j e hj hholds _ => ?_)
    have hne : k ≠ j := by
      rintro rfl
      obtain rfl : c = e := Option.some.inj (hk.symm.trans hj)
      simp [hpc, CallPc.holds] at hholds
    exact (List.getElem?_set_ne hne).trans hj
  | @handler q _ _ hh | @process q _ _ hh | @wakeHandler q _ hh =>
    exact QueueOk.handle hlock h hh
  | @notifyCond q _ y hh =>
    have hq : QueueOk (s.setQueue q y) r := QueueOk.handle hlock h hh
    have hlock' : LockInv cfg (s.setQueue q y) :=
      hlock.onQueue rfl rfl rfl (handle_lockMove hh)
    refine hq.congr rfl (pusher_congr hlock' rfl fun j e hj hholds _ => ?_)
    -- a call with the mutex is not waiting
    have hsame : e.notified cfg q = e := by
      have hnw : ¬ (e.pc = .waiting ∧ cfg.index e.op.name = q) := by
        rintro ⟨hw, -⟩
        simp [hw, CallPc.holds] at hholds
      simp only [Call.notified, if_neg hnw]
    simp only [List.getElem?_map]
    rw [show s.calls[j]? = some e from hj, Option.map_some, hsame]
  | stopBegin => exact (h r).congr rfl rfl
  | stopper hst => exact stopper_queueOk hlock h hst

/-- The invariants of every run. -/
structure RunInv (cfg : Config) (s : State) : Prop where
  lock : LockInv cfg s
  enq : EnqInv cfg s
  queue : ∀ q, QueueOk s q

theorem reach_runInv {ok : State → Act → Prop} (h : Reach (step cfg) ok {} s) : RunInv cfg s := by
  refine h.invariant ⟨.init, .init, fun q => ⟨⟨rfl, rfl, rfl, rfl, rfl, rfl⟩, ?_⟩⟩ ?_
  · intro _ hne
    exact absurd rfl hne
  · rintro s a t ⟨hlock, henq, hqueue⟩ _ hs
    exact ⟨step_lockInv hlock hs, step_enqInv henq hs, fun q => step_queueOk hlock hqueue hs⟩

end Runs

/-! ## Nothing lost, duplicated or reordered -/

/-- The request of an entry is for this object. -/
def isNamed (s : State) (name : Bytes) (e : Entry) : Bool :=
  (s.calls[e.op]?).any fun c => c.op.name = name

/-- What the queues are for. -/
structure Orderly (cfg : Config) (s : State) : Prop where
  /-- a call that has returned has pushed its request -/
  queued : ∀ k c, s.calls[k]? = some c → c.pc = .returned →
    entryOf k c ∈ (s.queue (cfg.index c.op.name)).enqueued
  /-- what was pushed is the request, onto its queue, with the values of its call -/
  pushed : ∀ q, ∀ e ∈ (s.queue q).enqueued, ∃ c, s.calls[e.op]? = some c ∧
    cfg.index c.op.name = q ∧ e.ts = c.ts ∧ e.period = c.period
  /-- a pushed request is in one place -/
  once : ∀ q, ∀ e ∈ (s.queue q).enqueued,
    ((taken (s.queue q)).map (·.op)).count e.op + (s.queue q).dealQueue.count e.op +
      (s.queue q).reqQueue.count e.op = 1 ∧
    ∀ r ≠ q, e.op ∉ (taken (s.queue r)).map (·.op) ++ (s.queue r).dealQueue ++
      (s.queue r).reqQueue
  /-- outside `EnQueue` and the swap the shared queues are equally long -/
  shared : ∀ q, (s.queue q).pc ≠ .swapTs → (s.queue q).pc ≠ .swapPeriod →
    (∀ c ∈ s.calls, cfg.index c.op.name = q → c.pc ≠ .pushTs ∧ c.pc ≠ .pushPeriod) →
    (s.queue q).tsQueue.length = (s.queue q).reqQueue.length ∧
      (s.queue q).period.length = (s.queue q).reqQueue.length
  /-- outside the swap and the pops of one iteration the deal queues are equally long -/
  deal : ∀ q, (s.queue q).pc ≠ .swapTs → (s.queue q).pc ≠ .swapPeriod →
    (∀ ts, (s.queue q).pc ≠ .process ts) →
    (s.queue q).dealTs.length = (s.queue q).dealQueue.length ∧
      (s.queue q).periodTs.length = (s.queue q).dealQueue.length
  /-- no pop meets an empty queue -/
  pops : ∀ q, ((s.queue q).pc = .popTs → (s.queue q).dealTs ≠ []) ∧
    ∀ ts, (s.queue q).pc = .process ts →
      (s.queue q).dealQueue ≠ [] ∧ (s.queue q).periodTs ≠ []
  /-- requests are processed in the order of their pushes, each with its own values -/
  values : ∀ q, taken (s.queue q) <+: (s.queue q).enqueued
  /-- the requests for one object are in one queue, and processed in the order of their pushes -/
  order : ∀ name,
    (taken (s.queue (cfg.index name))).filter (isNamed s name) <+:
      (s.queue (cfg.index name)).enqueued.filter (isNamed s name) ∧
    ∀ q ≠ cfg.index name, (s.queue q).enqueued.filter (isNamed s name) = []
  /-- a handler asleep on a queue that is not empty is about to be notified -/
  awake : ∀ q, (s.queue q).pc = .sleeping → (s.queue q).reqQueue ≠ [] →
    ∃ c ∈ s.calls, cfg.index c.op.name = q ∧ notifies c.pc = true

section Order

variable {cfg : Config} {s : State} {q : ℕ} {x : OpQueue} {tsLeft periodLeft : List UInt64}

/-- Entries that agree field by field agree. -/
theorem isPrefix_of_fields {es fs : List Entry} (hop : es.map (·.op) <+: fs.map (·.op))
    (hts : es.map (·.ts) <+: fs.map (·.ts)) (hp : es.map (·.period) <+: fs.map (·.period)) :
    es <+: fs := by
  induction es generalizing fs with
  | nil => exact List.nil_prefix
  | cons e es ih =>
    cases fs with
    | nil => simp at hop
    | cons f fs =>
      simp only [List.map_cons, List.cons_prefix_cons] at hop hts hp ⊢
      refine ⟨?_, ih hop.2 hts.2 hp.2⟩
      obtain ⟨op, ts, p⟩ := e
      simp only at hop hts hp
      rw [hop.1, hts.1, hp.1]

/-- **The values stay with their request.** -/
theorem Books.taken_prefix (h : Books x tsLeft periodLeft) : taken x <+: x.enqueued := by
  refine isPrefix_of_fields ?_ ?_ ?_
  · rw [h.ops, List.append_assoc]
    exact List.prefix_append _ _
  · rw [h.tss]
    simp only [List.append_assoc]
    exact List.prefix_append _ _
  · rw [h.periods]
    simp only [List.append_assoc]
    exact List.prefix_append _ _

theorem Books.deal_lengths (h : Books x tsLeft periodLeft) (h₁ : x.pc ≠ .swapTs)
    (h₂ : x.pc ≠ .swapPeriod) (h₃ : ∀ ts, x.pc ≠ .process ts) :
    x.dealTs.length = x.dealQueue.length ∧ x.periodTs.length = x.dealQueue.length := by
  have hdeal := h.deal
  unfold DealOk at hdeal
  cases hpc : x.pc <;> simp_all

theorem Books.pops (h : Books x tsLeft periodLeft) :
    (x.pc = .popTs → x.dealTs ≠ []) ∧
      ∀ ts, x.pc = .process ts → x.dealQueue ≠ [] ∧ x.periodTs ≠ [] := by
  have hdeal := h.deal
  refine ⟨fun hpc => ?_, fun ts hpc => ⟨?_, ?_⟩⟩ <;> simp only [DealOk, hpc] at hdeal <;>
    refine List.ne_nil_of_length_pos ?_ <;> omega

theorem Books.shared_lengths (h : Books x [] []) (h₁ : x.pc ≠ .swapTs)
    (h₂ : x.pc ≠ .swapPeriod) :
    x.tsQueue.length = x.reqQueue.length ∧ x.period.length = x.reqQueue.length := by
  obtain ⟨hops, htss, hperiods⟩ := h.lengths
  simp only [List.length_nil] at htss hperiods
  by_cases hproc : ∃ ts, x.pc = .process ts
  · -- one timestamp is popped and its request is not
    obtain ⟨ts, hts⟩ := hproc
    have hdeal := h.deal
    simp only [DealOk, hts] at hdeal
    simp only [tsInHand, hts, List.length_singleton] at htss
    omega
  · push Not at hproc
    obtain ⟨hdt, hdp⟩ := h.deal_lengths h₁ h₂ hproc
    have hhand : tsInHand x = [] := by
      unfold tsInHand
      split
      · rename_i ts hpc
        exact absurd hpc (hproc ts)
      · rfl
    rw [hhand, List.length_nil] at htss
    omega

theorem pushed_once (h : RunInv cfg s) {e : Entry} (he : e ∈ (s.queue q).enqueued) :
    ((taken (s.queue q)).map (·.op)).count e.op + (s.queue q).dealQueue.count e.op +
      (s.queue q).reqQueue.count e.op = 1 ∧
    ∀ r ≠ q, e.op ∉ (taken (s.queue r)).map (·.op) ++ (s.queue r).dealQueue ++
      (s.queue r).reqQueue := by
  constructor
  · rw [← List.count_append, ← List.count_append, ← (h.queue q).books.ops]
    exact List.count_eq_one_of_mem (h.enq.nodup q) (List.mem_map_of_mem he)
  · intro r hr hmem
    rw [← (h.queue r).books.ops] at hmem
    obtain ⟨f, hf, hop⟩ := List.mem_map.mp hmem
    obtain ⟨c, hc, hidx, -⟩ := h.enq.entry he
    obtain ⟨d, hd, hidx', -⟩ := h.enq.entry hf
    rw [hop] at hd
    obtain rfl : c = d := Option.some.inj (hc.symm.trans hd)
    exact hr (hidx'.symm.trans hidx)

/-- **The queues lose, duplicate and reorder nothing**, in every run. -/
theorem queues_orderly {ok : State → Act → Prop} (h : Reach (step cfg) ok {} s) :
    Orderly cfg s := by
  have hrun := reach_runInv h
  refine ⟨?_, ?_, fun q e he => pushed_once hrun he, ?_, ?_, ?_, ?_, ?_, ?_⟩
  · intro k c hk hpc
    exact hrun.enq.logged hk (by rw [hpc]; rfl)
  · intro q e he
    obtain ⟨c, hc, hidx, -, heq⟩ := hrun.enq.entry he
    exact ⟨c, hc, hidx, by rw [heq]; rfl, by rw [heq]; rfl⟩
  · -- with no call in the middle of its three pushes nothing is due
    intro q h₁ h₂ hnone
    have hbooks := (hrun.queue q).books
    have hdue : (pusher s q).elim [] tsDue = [] ∧ (pusher s q).elim [] periodDue = [] := by
      cases hp : pusher s q with
      | none => exact ⟨rfl, rfl⟩
      | some c =>
        obtain ⟨hmem, hidx⟩ := pusher_mem hrun.lock hp
        obtain ⟨hts, hperiod⟩ := hnone c hmem hidx
        simp [tsDue, periodDue, hts, hperiod]
    rw [hdue.1, hdue.2] at hbooks
    exact hbooks.shared_lengths h₁ h₂
  · intro q
    exact (hrun.queue q).books.deal_lengths
  · intro q
    exact (hrun.queue q).books.pops
  · intro q
    exact (hrun.queue q).books.taken_prefix
  · -- one object has one queue
    intro name
    refine ⟨(hrun.queue _).books.taken_prefix.filter _, fun q hq => ?_⟩
    apply List.filter_eq_nil_iff.mpr
    intro e he hnamed
    obtain ⟨c, hc, hidx, -⟩ := hrun.enq.entry he
    simp only [isNamed, hc, Option.any_some, decide_eq_true_eq] at hnamed
    exact hq (by rw [← hidx, hnamed])
  · intro q hsleep hne
    have hnotified := (hrun.queue q).awake hsleep hne
    cases hp : pusher s q with
    | none => simp [hp] at hnotified
    | some c =>
      obtain ⟨hmem, hidx⟩ := pusher_mem hrun.lock hp
      rw [hp] at hnotified
      exact ⟨c, hmem, hidx, hnotified⟩

end Order

/-- One queue. -/
def oneQueue : Config := ⟨1, Nat.one_pos, 10, fun _ => 0⟩

/-- A request without sub-ops, which is accepted, and one with the bare name `rbd_data`, which
is rejected; the first allocation for them fails. -/
def acceptAndReject : List Act :=
  [[.call { name := ascii ['o'], ops := [] } 5,
      .call { name := ascii ['r', 'b', 'd', '_', 'd', 'a', 't', 'a'], ops := [] } 6],
    List.replicate 3 (.handler 0 true), List.replicate 7 (.dispatch 0 7),
    List.replicate 7 (.dispatch 1 8), List.replicate 9 (.handler 0 true),
    [.handler 0 false], List.replicate 3 (.handler 0 true), [.process 0 false],
    List.replicate 5 (.handler 0 true), [.process 0 false]].flatten

/-- Both are processed with the values they were pushed with. -/
theorem queues_orderly_accept_and_reject :
    ∃ s, Reach (step oneQueue) Free {} s ∧
      (s.queue 0).processed = [⟨0, 5, 7⟩, ⟨1, 6, 8⟩] ∧ Orderly oneQueue s := by
  obtain ⟨s, hs, hp⟩ := exists_reach_of_run (step oneQueue) Free {} acceptAndReject
    (fun s => (s.queue 0).processed = [⟨0, 5, 7⟩, ⟨1, 6, 8⟩]) (by decide) (fun _ _ _ => trivial)
  exact ⟨s, hs, of_decide_eq_true hp, queues_orderly hs⟩

end GcAdaptor.OpHandlerOrder
