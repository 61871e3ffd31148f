/-
Order and liveness of the proxy's queues while it runs.

Three invariants of every run of `RadosWorker.step`. `MapInv`: the map holds every
worker there is, under its pool, so there is at most one per pool. `CallsInv`: a
call that has been through `Enqueue` is in the log once, on the lane its pool and
object id determine. `LaneLog`: what was put on a lane is what its handler has
ended, then the request it has in hand, then what is still in the queue.

The fourth, about the semaphore, holds while `Stop` has not begun and no post
meets a count of `2^31 - 1`: `view` maps a lane and the calls that post to it onto
`TwoLevelSem`, and `step_view` is the simulation. `queues_keep_order` puts the
four together.
-/
import GcAdaptor.RadosWorker

set_option autoImplicit false

namespace GcAdaptor.WorkerOrder

open GcAdaptor.Wire GcAdaptor.Cxx GcAdaptor.Interleave GcAdaptor.LinkedQueue
open GcAdaptor.TwoLevelSem GcAdaptor.RadosWorker

/-! ## What `Stop` leaves alone -/

/-- A step of `Stop` changes neither calls nor logs nor queues, and moves a handler
only from its sleep. -/
structure StopFrame (s t : State) : Prop where
  calls : t.calls = s.calls
  workers : t.workers = s.workers
  enqLog : t.enqLog = s.enqLog
  ctxLog : t.ctxLog = s.ctxLog
  handLog : t.handLog = s.handLog
  stopSet : t.stopSet = s.stopSet
  ioWorkers : t.ioWorkers = s.ioWorkers ∨ t.ioWorkers = []
  stop : t.stop ≠ .idle
  proxy : t.count = s.count ∧ t.pMap = s.pMap
  queue : ∀ l, (t.lane l).queue = (s.lane l).queue
  pc : ∀ l, (t.lane l).pc = (s.lane l).pc ∨
    ((s.lane l).pc = .asleep ∧ (t.lane l).pc = .semCheck)

theorem nextPost_ne_idle (cfg : Config) (w i : ℕ) (rest : List ℕ) :
    nextPost cfg w i rest ≠ .idle := by
  unfold nextPost
  split <;> simp

theorem nextJoin_ne_idle (cfg : Config) (w i : ℕ) (rest : List ℕ) :
    nextJoin cfg w i rest ≠ .idle := by
  unfold nextJoin
  split <;> simp

theorem nextWorker_ne_idle (ws : List ℕ) : nextWorker ws ≠ .idle := by
  cases ws <;> simp [nextWorker]

section Frame

variable {cfg : Config} {s t : State}

/-- Changing one lane without its queue. -/
theorem lane_update {P : Lane → Lane → Prop} {x : Lane} {l₀ : LaneId} (hrefl : ∀ y, P y y)
    (hx : P x (s.lane l₀)) (l : LaneId) : P (Function.update s.lane l₀ x l) (s.lane l) := by
  by_cases hl : l = l₀
  · subst hl
    rw [Function.update_self]
    exact hx
  · rw [Function.update_of_ne hl]
    exact hrefl _

/-- The new pc is the old one, or the handler was woken. -/
def PcKept (x y : Lane) : Prop := x.pc = y.pc ∨ (y.pc = .asleep ∧ x.pc = .semCheck)

theorem notify_pcKept (x : Lane) : PcKept x.notify x := by
  unfold PcKept Lane.notify
  by_cases h : x.pc = .asleep
  · exact .inr ⟨h, if_pos h⟩
  · exact .inl (if_neg h)

theorem stopper_frame (h : s.stopper cfg = some t) : StopFrame s t := by
  -- `Stop` touches one lane at a time, and there neither the queue nor more than a wake-up
  have hq : ∀ (l₀ : LaneId) (x : Lane), x.queue = (s.lane l₀).queue →
      ∀ l, (Function.update s.lane l₀ x l).queue = (s.lane l).queue := fun l₀ x hx =>
    lane_update (P := fun x y => x.queue = y.queue) (fun _ => rfl) hx
  have hpc : ∀ (l₀ : LaneId) (x : Lane), PcKept x (s.lane l₀) →
      ∀ l, PcKept (Function.update s.lane l₀ x l) (s.lane l) := fun l₀ x hx =>
    lane_update (P := PcKept) (fun _ => .inl rfl) hx
  unfold State.stopper at h
  cases hs : s.stop with
  | idle => simp [hs] at h
  | done => simp [hs] at h
  | setFlag w rest =>
    simp only [hs, Option.some.injEq] at h
    subst h
    exact ⟨rfl, rfl, rfl, rfl, rfl, rfl, .inl rfl, nextPost_ne_idle _ _ _ _, ⟨rfl, rfl⟩,
      fun _ => rfl, fun _ => .inl rfl⟩
  | fetchAdd w i rest =>
    simp only [hs, Option.some.injEq] at h
    subst h
    refine ⟨rfl, rfl, rfl, rfl, rfl, rfl, .inl rfl, ?_, ⟨rfl, rfl⟩, hq _ _ rfl,
      hpc _ _ (.inl rfl)⟩
    show (if _ then _ else _) ≠ _
    split
    · simp
    · exact nextPost_ne_idle _ _ _ _
  | semPost w i rest =>
    simp only [hs, Option.some.injEq] at h
    subst h
    exact ⟨rfl, rfl, rfl, rfl, rfl, rfl, .inl rfl, by simp, ⟨rfl, rfl⟩, hq _ _ rfl,
      hpc _ _ (.inl rfl)⟩
  | notify w i rest =>
    simp only [hs, Option.some.injEq] at h
    subst h
    exact ⟨rfl, rfl, rfl, rfl, rfl, rfl, .inl rfl, nextPost_ne_idle _ _ _ _, ⟨rfl, rfl⟩, hq _ _ rfl,
      hpc _ _ (notify_pcKept _)⟩
  | setFlagAgain w rest =>
    simp only [hs, Option.some.injEq] at h
    subst h
    exact ⟨rfl, rfl, rfl, rfl, rfl, rfl, .inl rfl, nextJoin_ne_idle _ _ _ _, ⟨rfl, rfl⟩,
      fun _ => rfl, fun _ => .inl rfl⟩
  | join w i rest =>
    simp only [hs] at h
    split_ifs at h
    obtain rfl : _ = t := Option.some.inj h
    exact ⟨rfl, rfl, rfl, rfl, rfl, rfl, .inl rfl, nextJoin_ne_idle _ _ _ _, ⟨rfl, rfl⟩,
      fun _ => rfl, fun _ => .inl rfl⟩
  | delete w rest =>
    simp only [hs, Option.some.injEq] at h
    subst h
    refine ⟨rfl, rfl, rfl, rfl, rfl, rfl, ?_, nextWorker_ne_idle _, ⟨rfl, rfl⟩,
      fun _ => rfl, fun _ => .inl rfl⟩
    show (if _ then _ else _) = _ ∨ (if _ then _ else _) = _
    split
    · exact .inr rfl
    · exact .inl rfl

/-- `GetIoCtxWithClient` moves the handler on: to the submission, or with `-ENOENT`
back to the queue. -/
theorem getIoCtx_cases (cfg : Config) (s : State) (l : LaneId) (k : ℕ) (poolId : ℤ)
    (created : ℕ → Option ℕ) :
    ∃ pc ended,
      s.getIoCtx cfg l k poolId created =
        { s with
          count := (s.count + 1) % 2 ^ 32
          pMap := (s.getIoCtxWithClient cfg poolId created).2.2
          ctxLog := s.ctxLog ++ [⟨k, (s.getIoCtxWithClient cfg poolId created).1,
            (s.getIoCtxWithClient cfg poolId created).2.1⟩]
          lane := Function.update s.lane l { s.lane l with pc := pc }
          handLog := s.handLog ++ ended } ∧
      ((pc = .dequeue ∧ ended = [⟨k, l, .noIoCtx⟩]) ∨
        ∃ ioctx, (s.getIoCtxWithClient cfg poolId created).2.1 = some ioctx ∧
          pc = .aio k (s.getIoCtxWithClient cfg poolId created).1 ioctx ∧ ended = []) := by
  unfold State.getIoCtx
  simp only
  split
  · exact ⟨.dequeue, [⟨k, l, .noIoCtx⟩], rfl, .inl ⟨rfl, rfl⟩⟩
  · rename_i ioctx hctx
    refine ⟨.aio k (s.getIoCtxWithClient cfg poolId created).1 ioctx, [], ?_,
      .inr ⟨ioctx, hctx, rfl, rfl⟩⟩
    rw [List.append_nil]
    rfl

end Frame

/-! ## One worker per pool -/

/-- The map and the workers there are. -/
structure MapInv (s : State) : Prop where
  sound : ∀ {p w}, s.ioWorkers.lookup p = some w → s.workers[w]? = some p
  /-- until `Stop`, which clears the map -/
  complete : s.stop = .idle → ∀ p ∈ s.workers, s.ioWorkers.lookup p ≠ none
  nodup : s.stop = .idle → s.workers.Nodup

section Map

variable {cfg : Config} {s t : State} {a : Act}

theorem MapInv.init : MapInv {} := ⟨by simp, by simp, fun _ => List.nodup_nil⟩

/-- The worker of a pool is one. -/
theorem MapInv.unique {p : ℤ} {v w : ℕ} (h : MapInv s) (hidle : s.stop = .idle)
    (hv : s.workers[v]? = some p) (hw : s.workers[w]? = some p) : v = w :=
  (List.getElem?_inj (List.getElem?_eq_some_iff.mp hv).1 (h.nodup hidle)).mp (hv.trans hw.symm)

theorem MapInv.congr (h : MapInv s) (hw : t.workers = s.workers)
    (hm : t.ioWorkers = s.ioWorkers) (hs : t.stop = s.stop) : MapInv t := by
  refine ⟨?_, ?_, ?_⟩
  · rw [hw, hm]
    exact h.sound
  · rw [hw, hm, hs]
    exact h.complete
  · rw [hw, hs]
    exact h.nodup

/-- Past the start of `Stop` the map may only lose entries. -/
theorem MapInv.stopping (h : MapInv s) (hw : t.workers = s.workers)
    (hm : t.ioWorkers = s.ioWorkers ∨ t.ioWorkers = []) (hs : t.stop ≠ .idle) : MapInv t := by
  refine ⟨?_, fun hidle => absurd hidle hs, fun hidle => absurd hidle hs⟩
  intro p w hl
  rcases hm with hm | hm
  · rw [hw]
    exact h.sound (hm ▸ hl)
  · simp [hm] at hl

/-- The second lookup, under the exclusive lock, is what keeps the worker unique. -/
theorem MapInv.create {c : Call} (h : MapInv s) (hnone : s.ioWorkers.lookup c.poolId = none)
    (hw : t.workers = s.workers ++ [c.poolId])
    (hm : t.ioWorkers = mapSet c.poolId s.workers.length s.ioWorkers) (hs : t.stop = s.stop) :
    MapInv t := by
  refine ⟨?_, ?_, ?_⟩
  · intro p w hl
    rw [hm, lookup_mapSet] at hl
    rw [hw]
    split_ifs at hl with hp
    · obtain rfl : s.workers.length = w := Option.some.inj hl
      simp [hp]
    · exact getElem?_append_of_some (h.sound hl)
  · intro hidle p hp
    rw [hm, lookup_mapSet]
    split_ifs with heq
    · simp
    · rw [hw] at hp
      rcases List.mem_append.mp hp with hp | hp
      · exact h.complete (hs ▸ hidle) p hp
      · exact absurd (List.mem_singleton.mp hp) heq
  · intro hidle
    rw [hs] at hidle
    rw [hw, List.nodup_append]
    -- a worker of this pool would be in the map, where the second lookup looked
    refine ⟨h.nodup hidle, List.nodup_singleton _, ?_⟩
    rintro p hp q hq rfl
    rw [List.mem_singleton.mp hq] at hp
    exact h.complete hidle _ hp hnone

theorem step_mapInv (h : MapInv s) (hs : step cfg s a = some t) : MapInv t := by
  cases step_cases hs with
  | create _ _ _ hnone => exact h.create hnone rfl rfl rfl
  | getIoCtx _ _ =>
    obtain ⟨_, _, heq, -⟩ := getIoCtx_cases cfg s _ _ _ _
    rw [heq]
    exact h.congr rfl rfl rfl
  | stopBegin hidle =>
    exact h.stopping rfl (.inl rfl) (nextWorker_ne_idle _)
  | stopper hst =>
    have hf := stopper_frame hst
    exact h.stopping hf.workers hf.ioWorkers hf.stop
  | _ => exact h.congr rfl rfl rfl

end Map

/-! ## Where a request has been put -/

/-- The call is past `Enqueue`. -/
def Enqueued : CallPc → Prop
  | .fetchAdd _ | .semPost _ | .notify _ => True
  | .returned ret => ret = 0
  | _ => False

/-- What is known of call `k` at each place. -/
def CallOk (s : State) (k : ℕ) (c : Call) : Prop :=
  match c.pc with
  | .alloc w | .enqueue w => s.workers[w]? = some c.poolId
  | .fetchAdd l | .semPost l | .notify l => (k, l) ∈ s.enqLog
  | .returned ret => ret = 0 → ∃ l, (k, l) ∈ s.enqLog
  | _ => True

/-- What is known of an entry of the log: its lane is the one of its pool and object. -/
def EntryOk (cfg : Config) (s : State) (k : ℕ) (l : LaneId) : Prop :=
  ∃ c, s.calls[k]? = some c ∧ Enqueued c.pc ∧ s.workers[l.1]? = some c.poolId ∧
    l.2 = cfg.index c.objectId

structure CallsInv (cfg : Config) (s : State) : Prop where
  call : ∀ {k c}, s.calls[k]? = some c → CallOk s k c
  entry : ∀ {k l}, (k, l) ∈ s.enqLog → EntryOk cfg s k l
  nodup : (s.enqLog.map (·.1)).Nodup

section Calls

variable {cfg : Config} {s t : State} {a : Act} {k : ℕ} {c d : Call}

theorem CallsInv.init : CallsInv cfg {} := ⟨by simp, by simp, List.nodup_nil⟩

theorem getElem?_of_isPrefix {α : Type} {xs ys : List α} (h : xs <+: ys) {i : ℕ} {x : α}
    (hx : xs[i]? = some x) : ys[i]? = some x := by
  obtain ⟨zs, rfl⟩ := h
  exact getElem?_append_of_some hx

/-- The facts only ask for more workers and a longer log. -/
theorem CallOk.mono (h : CallOk s k c) (hw : s.workers <+: t.workers)
    (he : s.enqLog <+: t.enqLog) : CallOk t k c := by
  unfold CallOk at h ⊢
  cases hpc : c.pc with
  | alloc w =>
    simp only [hpc] at h ⊢
    exact getElem?_of_isPrefix hw h
  | enqueue w =>
    simp only [hpc] at h ⊢
    exact getElem?_of_isPrefix hw h
  | returned ret =>
    simp only [hpc] at h ⊢
    intro hret
    exact (h hret).imp fun _ hl => he.subset hl
  | fetchAdd l | semPost l | notify l =>
    simp only [hpc] at h ⊢
    exact he.subset h
  | _ => trivial

/-- An entry stays true when its call moves forward. -/
theorem EntryOk.setCall {j : ℕ} {l : LaneId} (h : EntryOk cfg s j l) (hk : s.calls[k]? = some c)
    (hcalls : t.calls = s.calls.set k d) (hpool : d.poolId = c.poolId)
    (hoid : d.objectId = c.objectId) (hpc : Enqueued c.pc → Enqueued d.pc)
    (hw : s.workers <+: t.workers) : EntryOk cfg t j l := by
  obtain ⟨e, he, henq, hwork, hidx⟩ := h
  by_cases hjk : j = k
  · subst hjk
    obtain rfl : c = e := Option.some.inj (hk.symm.trans he)
    have hlt : j < s.calls.length := (List.getElem?_eq_some_iff.mp hk).1
    exact ⟨d, by simp [hcalls, hlt], hpc henq, hpool ▸ getElem?_of_isPrefix hw hwork, hoid ▸ hidx⟩
  · exact ⟨e, by rw [hcalls, List.getElem?_set_ne (Ne.symm hjk), he], henq,
      getElem?_of_isPrefix hw hwork, hidx⟩

theorem CallsInv.congr (h : CallsInv cfg s) (hc : t.calls = s.calls)
    (hw : t.workers = s.workers) (he : t.enqLog = s.enqLog) : CallsInv cfg t := by
  refine ⟨fun hk => ?_, fun hm => ?_, he ▸ h.nodup⟩
  · exact (h.call (hc ▸ hk)).mono (hw ▸ List.prefix_refl _) (he ▸ List.prefix_refl _)
  · obtain ⟨c, hcall, hrest⟩ := h.entry (he ▸ hm)
    exact ⟨c, by rw [hc, hcall], by rw [hw]; exact hrest⟩

/-- Call `k` moves without an `Enqueue`. -/
theorem CallsInv.setCall (h : CallsInv cfg s) (hk : s.calls[k]? = some c)
    (hcalls : t.calls = s.calls.set k d) (hpool : d.poolId = c.poolId)
    (hoid : d.objectId = c.objectId) (hpc : Enqueued c.pc → Enqueued d.pc)
    (hw : s.workers <+: t.workers) (he : t.enqLog = s.enqLog) (hok : CallOk t k d) :
    CallsInv cfg t := by
  refine ⟨?_, fun hm => (h.entry (he ▸ hm)).setCall hk hcalls hpool hoid hpc hw, he ▸ h.nodup⟩
  intro j e hj
  rw [hcalls, List.getElem?_set] at hj
  split_ifs at hj with hkj
  · obtain rfl : d = e := Option.some.inj hj
    exact hkj ▸ hok
  · exact (h.call hj).mono hw (he ▸ List.prefix_refl _)

/-- The `Enqueue` of call `k`. -/
theorem CallsInv.enqueue {w : ℕ} {l : LaneId} (h : CallsInv cfg s) (hk : s.calls[k]? = some c)
    (hpc : c.pc = .enqueue w) (hl : l = (w, cfg.index c.objectId))
    (hcalls : t.calls = s.calls.set k { c with pc := .fetchAdd l })
    (hw : t.workers = s.workers) (he : t.enqLog = s.enqLog ++ [(k, l)]) : CallsInv cfg t := by
  have hlt : k < s.calls.length := (List.getElem?_eq_some_iff.mp hk).1
  have hwork : s.workers[w]? = some c.poolId := by simpa [CallOk, hpc] using h.call hk
  -- before its `Enqueue` the call is in no entry
  have hfresh : ∀ m, (k, m) ∉ s.enqLog := by
    intro m hm
    obtain ⟨e, hek, henq, -⟩ := h.entry hm
    obtain rfl : c = e := Option.some.inj (hk.symm.trans hek)
    simp [Enqueued, hpc] at henq
  refine ⟨?_, ?_, ?_⟩
  · intro j e hj
    rw [hcalls, List.getElem?_set] at hj
    split_ifs at hj with hkj
    · obtain rfl := Option.some.inj hj
      simp [CallOk, he, hkj]
    · exact (h.call hj).mono (hw ▸ List.prefix_refl _) (he ▸ List.prefix_append _ _)
  · intro j m hm
    rw [he] at hm
    rcases List.mem_append.mp hm with hm | hm
    · exact (h.entry hm).setCall hk hcalls rfl rfl (by simp [Enqueued]) (hw ▸ List.prefix_refl _)
    · obtain ⟨rfl, rfl⟩ := Prod.mk.inj (List.mem_singleton.mp hm)
      exact ⟨{ c with pc := .fetchAdd m }, by simp [hcalls, hlt], by simp [Enqueued],
        by simp [hw, hl, hwork], by simp [hl]⟩
  · rw [he, List.map_append, List.nodup_append]
    refine ⟨h.nodup, by simp, ?_⟩
    rintro x hx y hy rfl
    obtain ⟨⟨j, m⟩, hm, rfl⟩ := List.mem_map.mp hx
    obtain rfl : j = k := by simpa using hy
    exact hfresh m hm

theorem early_callOk {pc : CallPc} (hmap : MapInv s) (h : CallsInv cfg s)
    (hk : s.calls[k]? = some c) (he : Early s c pc) : CallOk s k { c with pc := pc } := by
  have hold := h.call hk
  cases he with
  | found _ hw => exact hmap.sound hw
  | allocated hpc => simpa [CallOk, hpc] using hold
  | invalid => simp [CallOk]
  | failed => simp [CallOk]
  | noMemory => simp [CallOk, ENOMEM]
  | _ => trivial

theorem early_not_enqueued {pc : CallPc} (he : Early s c pc) : ¬ Enqueued c.pc := by
  cases he with
  | found h => rcases h with h | h <;> simp [Enqueued, h]
  | _ h => simp [Enqueued, h]

theorem step_callsInv (hmap : MapInv s) (h : CallsInv cfg s) (hs : step cfg s a = some t) :
    CallsInv cfg t := by
  cases step_cases hs with
  | call =>
    refine ⟨?_, ?_, h.nodup⟩
    · intro j e hj
      rw [List.getElem?_append] at hj
      split_ifs at hj
      · exact (h.call hj).mono (List.prefix_refl _) (List.prefix_refl _)
      · rw [List.mem_singleton.mp (List.mem_of_getElem? hj)]
        trivial
    · intro j m hm
      obtain ⟨e, he, hrest⟩ := h.entry hm
      exact ⟨e, getElem?_of_isPrefix (List.prefix_append _ _) he, hrest⟩
  | early hk he =>
    exact h.setCall hk rfl rfl rfl (fun henq => absurd henq (early_not_enqueued he))
      (List.prefix_refl _) rfl
      ((early_callOk hmap h hk he).mono (List.prefix_refl _) (List.prefix_refl _))
  | create hk hpc =>
    refine h.setCall hk rfl rfl rfl (fun henq => ?_) (List.prefix_append _ _) rfl ?_
    · simp [Enqueued, hpc] at henq
    · simp [CallOk]
  | enqueue hk hpc hl => exact h.enqueue hk hpc hl rfl rfl rfl
  | fetchAdd hk hpc =>
    have hold := h.call hk
    simp only [CallOk, hpc] at hold
    refine h.setCall hk rfl rfl rfl (fun _ => ?_) (List.prefix_refl _) rfl ?_
    · simp only
      split_ifs <;> simp [Enqueued]
    · simp only [CallOk]
      split_ifs
      · exact hold
      · intro _
        exact ⟨_, hold⟩
  | semPost hk hpc =>
    have hold := h.call hk
    simp only [CallOk, hpc] at hold
    exact h.setCall hk rfl rfl rfl (fun _ => trivial) (List.prefix_refl _) rfl hold
  | notify hk hpc =>
    have hold := h.call hk
    simp only [CallOk, hpc] at hold
    exact h.setCall hk rfl rfl rfl (fun _ => rfl) (List.prefix_refl _) rfl fun _ => ⟨_, hold⟩
  | getIoCtx _ _ =>
    obtain ⟨_, _, heq, -⟩ := getIoCtx_cases cfg s _ _ _ _
    rw [heq]
    exact h.congr rfl rfl rfl
  | stopper hst =>
    have hf := stopper_frame hst
    exact h.congr hf.calls hf.workers hf.enqLog
  | _ => exact h.congr rfl rfl rfl

end Calls

/-! ## What a lane has done -/

/-- The request a handler has in hand. -/
def current (x : Lane) : List ℕ :=
  match x.pc with
  | .getIoCtx k | .aio k _ _ => [k]
  | _ => []

/-- What a lane still has to do. -/
def held (x : Lane) : List ℕ := current x ++ x.queue.items

/-- The requests put on a lane, in the order of their `Enqueue`. -/
def enqueuedOn (s : State) (l : LaneId) : List ℕ :=
  (s.enqLog.filter fun e => e.2 = l).map (·.1)

/-- The requests a lane's handler has handed on or failed, in that order. -/
def handedOn (s : State) (l : LaneId) : List ℕ :=
  (s.handLog.filter fun e => e.lane = l).map (·.call)

/-- Nothing is lost, duplicated or overtaken on a lane. -/
def LaneLog (s : State) : Prop := ∀ l, enqueuedOn s l = handedOn s l ++ held (s.lane l)

section Log

variable {cfg : Config} {s t : State} {a : Act} {k : ℕ} {l : LaneId} {x y : Lane}

theorem held_of_notify (x : Lane) : held x.notify = held x := by
  unfold Lane.notify
  by_cases h : x.pc = .asleep
  · simp [held, current, h]
  · simp [h]

theorem held_of_pcKept (hq : x.queue = y.queue) (hpc : PcKept x y) : held x = held y := by
  rcases hpc with hpc | ⟨hy, hx⟩
  · simp [held, current, hq, hpc]
  · simp [held, current, hq, hx, hy]

/-- Inside `OpHandler` and `Wait` a request only goes from the queue into the hand. -/
theorem held_of_handler {b : Bool} (h : x.handler b = some y) : held y = held x := by
  unfold Lane.handler at h
  cases hpc : x.pc with
  | test =>
    simp only [hpc, Option.some.injEq] at h
    subst h
    cases b <;> simp [held, current, hpc]
  | fetchSub =>
    simp only [hpc, Option.some.injEq] at h
    subst h
    by_cases hc : x.count < 1 <;> simp [held, current, hpc, hc]
  | semCheck =>
    simp only [hpc] at h
    split at h <;> obtain rfl := Option.some.inj h <;> simp [held, current, hpc]
  | dequeue =>
    simp only [hpc] at h
    cases hq : x.queue.dequeue with
    | none =>
      simp only [hq, Option.some.injEq] at h
      subst h
      simp [held, current, hpc]
    | some r =>
      obtain ⟨k, q⟩ := r
      simp only [hq, Option.some.injEq] at h
      subst h
      simp [held, current, hpc, Fifo.dequeue_eq_some hq]
  | _ => simp [hpc] at h

theorem LaneLog.congr (h : LaneLog s) (he : t.enqLog = s.enqLog) (hh : t.handLog = s.handLog)
    (hl : ∀ l, held (t.lane l) = held (s.lane l)) : LaneLog t := by
  intro l
  unfold enqueuedOn handedOn
  rw [he, hh, hl l]
  exact h l

/-- A step on lane `l` that logs `e` and `f` for it: what is held before, then what is
put on, is what is ended and then what is held after. -/
theorem LaneLog.move {e : List (ℕ × LaneId)} {f : List Handed} (h : LaneLog s)
    (he : t.enqLog = s.enqLog ++ e) (hh : t.handLog = s.handLog ++ f)
    (hlane : t.lane = Function.update s.lane l x) (hel : ∀ p ∈ e, p.2 = l)
    (hfl : ∀ p ∈ f, p.lane = l)
    (hx : held (s.lane l) ++ e.map (·.1) = f.map (·.call) ++ held x) : LaneLog t := by
  intro m
  have hm := h m
  unfold enqueuedOn handedOn at hm ⊢
  rw [he, hh, hlane, List.filter_append, List.filter_append, List.map_append, List.map_append, hm]
  by_cases hml : m = l
  · subst hml
    have hall : e.filter (fun p => p.2 = m) = e ∧ f.filter (fun p => p.lane = m) = f := by
      simp only [List.filter_eq_self, decide_eq_true_eq]
      exact ⟨hel, hfl⟩
    rw [hall.1, hall.2, Function.update_self, List.append_assoc, hx, List.append_assoc]
  · -- another lane has neither new entries nor a new state
    have hnone : e.filter (fun p => p.2 = m) = [] ∧ f.filter (fun p => p.lane = m) = [] := by
      simp only [List.filter_eq_nil_iff, decide_eq_true_eq]
      exact ⟨fun p hmem heq => hml (heq.symm.trans (hel p hmem)),
        fun p hmem heq => hml (heq.symm.trans (hfl p hmem))⟩
    rw [hnone.1, hnone.2, Function.update_of_ne hml]
    simp

/-- A step on lane `l` that logs nothing. -/
theorem LaneLog.setLane (h : LaneLog s) (he : t.enqLog = s.enqLog) (hh : t.handLog = s.handLog)
    (hlane : t.lane = Function.update s.lane l x) (hx : held x = held (s.lane l)) : LaneLog t := by
  refine h.move (e := []) (f := []) ?_ ?_ hlane (by simp) (by simp) (by simp [hx])
  · rw [he, List.append_nil]
  · rw [hh, List.append_nil]

theorem step_laneLog (h : LaneLog s) (hs : step cfg s a = some t) : LaneLog t := by
  cases step_cases hs with
  | enqueue =>
    exact h.move (f := []) rfl (List.append_nil _).symm rfl (by simp) (by simp)
      (by simp [held, current])
  | fetchAdd => exact h.setLane rfl rfl rfl rfl
  | semPost => exact h.setLane rfl rfl rfl rfl
  | notify => exact h.setLane rfl rfl rfl (held_of_notify _)
  | handler _ hx => exact h.setLane rfl rfl rfl (held_of_handler hx)
  | wake hpc => exact h.setLane rfl rfl rfl (by simp [held, current, hpc])
  | getIoCtx hpc _ =>
    obtain ⟨pc, ended, heq, ⟨rfl, rfl⟩ | ⟨ioctx, -, rfl, rfl⟩⟩ :=
      getIoCtx_cases cfg s _ _ _ _
    · rw [heq]
      exact h.move (e := []) (List.append_nil _).symm rfl rfl (by simp) (by simp)
        (by simp [held, current, hpc])
    · rw [heq]
      exact h.setLane rfl (List.append_nil _) rfl (by simp [held, current, hpc])
  | aio hpc =>
    exact h.move (e := []) (List.append_nil _).symm rfl rfl (by simp) (by simp)
      (by simp [held, current, hpc])
  | stopper hst =>
    have hf := stopper_frame hst
    exact h.congr hf.enqLog hf.handLog fun l => held_of_pcKept (hf.queue l) (hf.pc l)
  | _ => exact h.congr rfl rfl fun _ => rfl

end Log

/-- The three invariants of every run, also of one that stops. -/
structure RunInv (cfg : Config) (s : State) : Prop where
  map : MapInv s
  calls : CallsInv cfg s
  log : LaneLog s

section Run

variable {cfg : Config} {s t : State} {a : Act}

theorem RunInv.init : RunInv cfg {} := ⟨.init, .init, fun _ => rfl⟩

theorem step_runInv (h : RunInv cfg s) (hs : step cfg s a = some t) : RunInv cfg t :=
  ⟨step_mapInv h.map hs, step_callsInv h.map h.calls hs, step_laneLog h.log hs⟩

theorem reach_runInv {ok : State → Act → Prop} (h : Reach (step cfg) ok {} s) : RunInv cfg s :=
  h.invariant .init fun _ _ _ hrun _ hs => step_runInv hrun hs

end Run

/-! ## Once, and in order -/

/-- The requests a lane's handler has taken out of the queue. -/
def dequeuedOn (s : State) (l : LaneId) : List ℕ := handedOn s l ++ current (s.lane l)

/-- Request `k` is for this pool and object. -/
def isFor (s : State) (poolId : ℤ) (objectId : Bytes) (k : ℕ) : Bool :=
  (s.calls[k]?).any fun c => c.poolId = poolId && c.objectId = objectId

section Order

variable {cfg : Config} {s : State}

theorem enqueuedOn_eq (h : LaneLog s) (l : LaneId) :
    enqueuedOn s l = dequeuedOn s l ++ (s.lane l).queue.items := by
  rw [h l, held, dequeuedOn, List.append_assoc]

theorem mem_enqueuedOn {k : ℕ} {l : LaneId} : k ∈ enqueuedOn s l ↔ (k, l) ∈ s.enqLog := by
  simp [enqueuedOn]

theorem lane_unique (h : CallsInv cfg s) {k : ℕ} {l m : LaneId} (hl : (k, l) ∈ s.enqLog)
    (hm : (k, m) ∈ s.enqLog) : l = m :=
  congrArg Prod.snd (List.inj_on_of_nodup_map h.nodup hl hm rfl)

/-- A queued request has been taken out once or is in the queue once, and is on no
other lane. -/
theorem dequeued_once (h : RunInv cfg s) {k : ℕ} {l : LaneId} (hk : (k, l) ∈ s.enqLog) :
    (dequeuedOn s l).count k + (s.lane l).queue.items.count k = 1 ∧
      ∀ m ≠ l, k ∉ dequeuedOn s m ++ (s.lane m).queue.items := by
  constructor
  · rw [← List.count_append, ← enqueuedOn_eq h.log]
    have hnodup : (enqueuedOn s l).Nodup :=
      h.calls.nodup.sublist (List.filter_sublist.map _)
    exact List.count_eq_one_of_mem hnodup (mem_enqueuedOn.mpr hk)
  · intro m hm hmem
    rw [← enqueuedOn_eq h.log, mem_enqueuedOn] at hmem
    exact hm (lane_unique h.calls hmem hk)

/-- Two requests for one pool and object are on one lane. -/
theorem same_lane (h : RunInv cfg s) (hidle : s.stop = .idle) {poolId : ℤ} {objectId : Bytes}
    {j k : ℕ} {l m : LaneId}
    (hj : (j, l) ∈ s.enqLog) (hk : (k, m) ∈ s.enqLog) (hjf : isFor s poolId objectId j = true)
    (hkf : isFor s poolId objectId k = true) : l = m := by
  obtain ⟨c, hc, -, hcw, hci⟩ := h.calls.entry hj
  obtain ⟨d, hd, -, hdw, hdi⟩ := h.calls.entry hk
  simp only [isFor, hc, hd, Option.any_some, Bool.and_eq_true, decide_eq_true_eq] at hjf hkf
  rw [hjf.1] at hcw
  rw [hkf.1] at hdw
  exact Prod.ext (h.map.unique hidle hcw hdw) (by rw [hci, hdi, hjf.2, hkf.2])

/-- A log restricted to the requests that satisfy `p` is the part of one lane, if all of
them are on it. -/
theorem filter_log {α : Type} {log : List α} {id : α → ℕ} {lane : α → LaneId} {p : ℕ → Bool}
    {l : LaneId} (h : ∀ e ∈ log, p (id e) = true → lane e = l) :
    (log.map id).filter p = ((log.filter fun e => lane e = l).map id).filter p := by
  rw [List.filter_map, List.filter_map, List.filter_filter]
  refine congrArg _ (List.filter_congr fun e he => ?_)
  by_cases hp : p (id e) = true
  · simp [hp, h e he hp]
  · simp [hp]

theorem handed_enqueued (h : LaneLog s) {e : Handed} (he : e ∈ s.handLog) :
    (e.call, e.lane) ∈ s.enqLog := by
  rw [← mem_enqueuedOn, h e.lane]
  refine List.mem_append_left _ (List.mem_map.mpr ⟨e, ?_, rfl⟩)
  simpa using he

/-- **Order.** For one pool and object, what has been handed on is an initial part of what
was put in, in the order of the `Enqueue`s. -/
theorem handed_prefix (h : RunInv cfg s) (hidle : s.stop = .idle) (poolId : ℤ) (objectId : Bytes) :
    (s.handLog.map (·.call)).filter (isFor s poolId objectId) <+:
      (s.enqLog.map (·.1)).filter (isFor s poolId objectId) := by
  by_cases hex : ∃ e ∈ s.enqLog, isFor s poolId objectId e.1 = true
  · -- all requests of the object are on the lane of this one
    obtain ⟨⟨j, l⟩, hj, hjf⟩ := hex
    have henq : ∀ e ∈ s.enqLog, isFor s poolId objectId e.1 = true → e.2 = l :=
      fun e he hf => same_lane h hidle he hj hf hjf
    have hhand : ∀ e ∈ s.handLog, isFor s poolId objectId e.call = true → e.lane = l :=
      fun e he hf => same_lane h hidle (handed_enqueued h.log he) hj hf hjf
    rw [filter_log henq, filter_log hhand]
    have hlog : enqueuedOn s l = handedOn s l ++ held (s.lane l) := h.log l
    unfold enqueuedOn handedOn at hlog
    rw [hlog, List.filter_append]
    exact List.prefix_append _ _
  · push Not at hex
    have hnone : (s.handLog.map (·.call)).filter (isFor s poolId objectId) = [] := by
      apply List.filter_eq_nil_iff.mpr
      intro k hk
      obtain ⟨e, he, rfl⟩ := List.mem_map.mp hk
      exact hex _ (handed_enqueued h.log he)
    rw [hnone]
    exact List.nil_prefix

end Order

/-! ## The semaphore

While `Stop` has not begun, a lane with the calls on their way to it is an instance of the
two-level semaphore. -/

/-- The lane a call is posting to. -/
def postsTo : CallPc → Option LaneId
  | .fetchAdd l | .semPost l | .notify l => some l
  | _ => none

/-- How many calls are at a place. -/
def callsAt (s : State) (pc : CallPc) : ℕ := total (fun c => if c.pc = pc then 1 else 0) s.calls

def modeOf : HandlerPc → Mode
  | .test | .fetchSub | .exited => .idle
  | .semCheck => .checking
  | .asleep => .asleep
  | .dequeue | .getIoCtx _ | .aio .. => .draining

def view (s : State) (l : LaneId) : View where
  len := (s.lane l).queue.items.length
  count := (s.lane l).count
  inner := (s.lane l).inner
  mode := modeOf (s.lane l).pc
  posting := callsAt s (.fetchAdd l)
  waking := callsAt s (.semPost l)
  notifying := callsAt s (.notify l)

/-- `Stop` is not called. -/
def notStopping : Act → Bool
  | .stopBegin | .stopper => false
  | _ => true

/-- `PostOne` does not meet the largest count. -/
def postsBelowMax (s : State) : Act → Bool
  | .producer k _ =>
    (s.calls[k]?).all fun c =>
      match c.pc with
      | .fetchAdd l => (s.lane l).count ≠ INT_MAX
      | _ => true
  | _ => true

section Simulation

variable {cfg : Config} {s t : State} {a : Act} {k : ℕ} {c d : Call} {l m : LaneId}

/-- One call moved from `c.pc` to `d.pc`. -/
theorem callsAt_set (pc : CallPc) (hk : s.calls[k]? = some c)
    (hcalls : t.calls = s.calls.set k d) :
    callsAt t pc + (if c.pc = pc then 1 else 0) = callsAt s pc + (if d.pc = pc then 1 else 0) := by
  unfold callsAt
  rw [hcalls]
  exact total_set hk

theorem callsAt_other (pc : CallPc) (hk : s.calls[k]? = some c)
    (hcalls : t.calls = s.calls.set k d) (hc : c.pc ≠ pc) (hd : d.pc ≠ pc) :
    callsAt t pc = callsAt s pc := by
  have hset := callsAt_set pc hk hcalls
  rw [if_neg hc, if_neg hd] at hset
  omega

theorem callsAt_leave (pc : CallPc) (hk : s.calls[k]? = some c)
    (hcalls : t.calls = s.calls.set k d) (hc : c.pc = pc) (hd : d.pc ≠ pc) :
    callsAt s pc = callsAt t pc + 1 := by
  have hset := callsAt_set pc hk hcalls
  rw [if_pos hc, if_neg hd] at hset
  omega

theorem callsAt_enter (pc : CallPc) (hk : s.calls[k]? = some c)
    (hcalls : t.calls = s.calls.set k d) (hc : c.pc ≠ pc) (hd : d.pc = pc) :
    callsAt t pc = callsAt s pc + 1 := by
  have hset := callsAt_set pc hk hcalls
  rw [if_neg hc, if_pos hd] at hset
  omega

/-- A step that does not touch lane `m` or a call posting to it. -/
theorem view_other (hk : s.calls[k]? = some c) (hcalls : t.calls = s.calls.set k d)
    (hc : postsTo c.pc ≠ some m) (hd : postsTo d.pc ≠ some m) (hlane : t.lane m = s.lane m) :
    view t m = view s m := by
  have hat : ∀ pc, postsTo pc = some m → callsAt t pc = callsAt s pc := fun pc hpc =>
    callsAt_other pc hk hcalls (fun h => hc (h ▸ hpc)) fun h => hd (h ▸ hpc)
  unfold view
  rw [hlane, hat (.fetchAdd m) rfl, hat (.semPost m) rfl, hat (.notify m) rfl]

/-- A step of no call that does not touch lane `m`. -/
theorem view_congr (hcalls : t.calls = s.calls) (hlane : t.lane m = s.lane m) :
    view t m = view s m := by
  unfold view callsAt
  rw [hcalls, hlane]

theorem early_postsTo {pc : CallPc} (h : Early s c pc) :
    postsTo c.pc = none ∧ postsTo pc = none := by
  cases h with
  | found h => rcases h with h | h <;> simp [postsTo, h]
  | _ h => simp [postsTo, h]

theorem enqueue_view {w : ℕ} (hk : s.calls[k]? = some c) (hpc : c.pc = .enqueue w)
    (hcalls : t.calls = s.calls.set k { c with pc := .fetchAdd l })
    (hlane : t.lane l = { s.lane l with queue := (s.lane l).queue.enqueue k }) :
    Move (view s l) (view t l) := by
  have heq : view t l =
      { view s l with len := (view s l).len + 1, posting := (view s l).posting + 1 } := by
    unfold view
    rw [callsAt_enter (.fetchAdd l) hk hcalls (by simp [hpc]) rfl,
      callsAt_other (.semPost l) hk hcalls (by simp [hpc]) (by simp),
      callsAt_other (.notify l) hk hcalls (by simp [hpc]) (by simp), hlane]
    simp
  exact heq ▸ .append

theorem fetchAdd_view (hk : s.calls[k]? = some c) (hpc : c.pc = .fetchAdd l)
    (hcalls : t.calls = s.calls.set k
      { c with pc := if (s.lane l).count < 0 then .semPost l else .returned 0 })
    (hlane : t.lane l = { s.lane l with count := int32 ((s.lane l).count + 1) })
    (hmax : (s.lane l).count ≠ INT_MAX) : Move (view s l) (view t l) := by
  have hleave : callsAt s (.fetchAdd l) = callsAt t (.fetchAdd l) + 1 :=
    callsAt_leave _ hk hcalls hpc (by simp only; split_ifs <;> simp)
  have hnotify : callsAt t (.notify l) = callsAt s (.notify l) :=
    callsAt_other _ hk hcalls (by simp [hpc]) (by simp only; split_ifs <;> simp)
  have hwaking : callsAt t (.semPost l) =
      if (s.lane l).count < 0 then callsAt s (.semPost l) + 1 else callsAt s (.semPost l) := by
    split_ifs with hneg
    · exact callsAt_enter _ hk hcalls (by simp [hpc]) (by simp [hneg])
    · exact callsAt_other _ hk hcalls (by simp [hpc]) (by simp [hneg])
  have heq : view t l =
      { view s l with
        posting := callsAt t (.fetchAdd l)
        count := int32 ((view s l).count + 1)
        waking := if (view s l).count < 0 then (view s l).waking + 1
          else (view s l).waking } := by
    simp only [view, hlane, hnotify, hwaking]
    rfl
  exact heq ▸ .add hleave hmax

theorem semPost_view (hk : s.calls[k]? = some c) (hpc : c.pc = .semPost l)
    (hcalls : t.calls = s.calls.set k { c with pc := .notify l })
    (hlane : t.lane l = { s.lane l with inner := (s.lane l).inner + 1 }) :
    Move (view s l) (view t l) := by
  have hleave : callsAt s (.semPost l) = callsAt t (.semPost l) + 1 :=
    callsAt_leave _ hk hcalls hpc (by simp)
  have heq : view t l =
      { view s l with
        waking := callsAt t (.semPost l)
        inner := (view s l).inner + 1
        notifying := (view s l).notifying + 1 } := by
    simp only [view, hlane, callsAt_enter (.notify l) hk hcalls (by simp [hpc]) rfl,
      callsAt_other (.fetchAdd l) hk hcalls (by simp [hpc]) (by simp)]
  exact heq ▸ .post hleave

theorem modeOf_notify (x : Lane) :
    modeOf x.notify.pc = if modeOf x.pc = .asleep then .checking else modeOf x.pc := by
  unfold Lane.notify
  cases h : x.pc <;> simp [modeOf]

theorem notify_view (hk : s.calls[k]? = some c) (hpc : c.pc = .notify l)
    (hcalls : t.calls = s.calls.set k { c with pc := .returned 0 })
    (hlane : t.lane l = (s.lane l).notify) : Move (view s l) (view t l) := by
  have hleave : callsAt s (.notify l) = callsAt t (.notify l) + 1 :=
    callsAt_leave _ hk hcalls hpc (by simp)
  have heq : view t l =
      { view s l with
        notifying := callsAt t (.notify l)
        mode := if (view s l).mode = .asleep then .checking else (view s l).mode } := by
    simp only [view, hlane, modeOf_notify,
      callsAt_other (.semPost l) hk hcalls (by simp [hpc]) (by simp),
      callsAt_other (.fetchAdd l) hk hcalls (by simp [hpc]) (by simp)]
    rfl
  exact heq ▸ .notify hleave

/-- The handler inside `OpHandler` and `Wait`: testing the flag is not a move. -/
theorem handler_view {x : Lane} {b : Bool} (hx : (s.lane l).handler b = some x)
    (hcalls : t.calls = s.calls) (hlane : t.lane l = x) :
    Move (view s l) (view t l) ∨ view t l = view s l := by
  have hat : ∀ pc, callsAt t pc = callsAt s pc := fun pc => by unfold callsAt; rw [hcalls]
  unfold Lane.handler at hx
  cases hpc : (s.lane l).pc with
  | test =>
    simp only [hpc, Option.some.injEq] at hx
    right
    cases b <;> simp [view, hat, hlane, ← hx, hpc, modeOf]
  | fetchSub =>
    simp only [hpc, Option.some.injEq] at hx
    left
    have heq : view t l = { view s l with
        count := int32 ((view s l).count - 1)
        mode := if (view s l).count < 1 then .checking else .draining } := by
      by_cases hc : (s.lane l).count < 1 <;> simp [view, hat, hlane, ← hx, hc, modeOf]
    exact heq ▸ .wait (by simp [view, hpc, modeOf])
  | semCheck =>
    simp only [hpc] at hx
    left
    cases hi : (s.lane l).inner with
    | zero =>
      simp only [hi, Option.some.injEq] at hx
      have heq : view t l = { view s l with mode := .asleep } := by
        simp [view, hat, hlane, ← hx, modeOf, hi]
      exact heq ▸ .sleep (by simp [view, hpc, modeOf]) hi
    | succ n =>
      simp only [hi, Option.some.injEq] at hx
      have heq : view t l = { view s l with inner := n, mode := .draining } := by
        simp [view, hat, hlane, ← hx, modeOf]
      exact heq ▸ .take (by simp [view, hpc, modeOf]) hi
  | dequeue =>
    simp only [hpc] at hx
    left
    cases hq : (s.lane l).queue.dequeue with
    | none =>
      simp only [hq, Option.some.injEq] at hx
      have heq : view t l = { view s l with mode := .idle } := by
        simp [view, hat, hlane, ← hx, modeOf]
      exact heq ▸ .drained (by simp [view, hpc, modeOf])
        (by simp [view, Fifo.dequeue_eq_none.mp hq])
    | some r =>
      obtain ⟨j, q⟩ := r
      simp only [hq, Option.some.injEq] at hx
      have heq : view t l = { view s l with len := q.items.length } := by
        simp [view, hat, hlane, ← hx, modeOf, hpc]
      exact heq ▸ .drain (by simp [view, hpc, modeOf])
        (by simp [view, Fifo.dequeue_eq_some hq])
  | _ => simp [hpc] at hx

/-- **The simulation.** Every step that is not of `Stop` and posts below the largest count
is a move of the two-level semaphore of each lane, or nothing to it. -/
theorem step_view (hs : step cfg s a = some t) (hstop : notStopping a = true)
    (hmax : postsBelowMax s a = true) (m : LaneId) :
    Move (view s m) (view t m) ∨ view t m = view s m := by
  cases step_cases hs with
  | call =>
    right
    simp [view, callsAt]
  | early hk he =>
    obtain ⟨hc, hd⟩ := early_postsTo he
    exact .inr (view_other hk rfl (by simp [hc]) (by simp [hd]) rfl)
  | create hk hpc => exact .inr (view_other hk rfl (by simp [postsTo, hpc]) (by simp [postsTo]) rfl)
  -- a producer's step is a move of the lane it posts to, and nothing to the others
  | @enqueue _ _ _ _ l hk hpc =>
    by_cases hm : m = l
    · subst hm
      exact .inl (enqueue_view hk hpc rfl (Function.update_self ..))
    · exact .inr (view_other hk rfl (by simp [postsTo, hpc]) (by simp [postsTo, Ne.symm hm])
        (Function.update_of_ne hm ..))
  | @fetchAdd _ _ _ l hk hpc =>
    by_cases hm : m = l
    · -- the one step that needs the bound on the count
      subst hm
      exact .inl (fetchAdd_view hk hpc rfl (Function.update_self ..)
        (by simpa [postsBelowMax, hk, hpc] using hmax))
    · refine .inr (view_other hk rfl (by simp [postsTo, hpc, Ne.symm hm]) ?_
        (Function.update_of_ne hm ..))
      simp only
      split_ifs <;> simp [postsTo, Ne.symm hm]
  | @semPost _ _ _ l hk hpc =>
    by_cases hm : m = l
    · subst hm
      exact .inl (semPost_view hk hpc rfl (Function.update_self ..))
    · exact .inr (view_other hk rfl (by simp [postsTo, hpc, Ne.symm hm])
        (by simp [postsTo, Ne.symm hm]) (Function.update_of_ne hm ..))
  | @notify _ _ _ l hk hpc =>
    by_cases hm : m = l
    · subst hm
      exact .inl (notify_view hk hpc rfl (Function.update_self ..))
    · exact .inr (view_other hk rfl (by simp [postsTo, hpc, Ne.symm hm]) (by simp [postsTo])
        (Function.update_of_ne hm ..))
  | @handler l _ _ hx =>
    by_cases hm : m = l
    · subst hm
      exact handler_view hx rfl (Function.update_self ..)
    · exact .inr (view_congr rfl (Function.update_of_ne hm ..))
  | @wake l hpc =>
    by_cases hm : m = l
    · subst hm
      have heq : view (s.setLane m { s.lane m with pc := .semCheck }) m =
          { view s m with mode := .checking } := by
        simp [view, callsAt, State.setLane, modeOf]
      exact .inl (heq ▸ .wake (by simp [view, hpc, modeOf]))
    · exact .inr (view_congr rfl (Function.update_of_ne hm ..))
  | @getIoCtx l _ _ _ hpc _ =>
    right
    obtain ⟨pc, ended, heq, hpc'⟩ := getIoCtx_cases cfg s _ _ _ _
    rw [heq]
    by_cases hm : m = l
    · subst hm
      obtain ⟨rfl, -⟩ | ⟨ioctx, -, rfl, -⟩ := hpc' <;> simp [view, callsAt, modeOf, hpc]
    · exact view_congr rfl (Function.update_of_ne hm ..)
  | @aio l _ _ _ _ hpc =>
    right
    by_cases hm : m = l
    · subst hm
      simp [view, callsAt, State.aio, State.setLane, modeOf, hpc]
    · exact view_congr rfl (Function.update_of_ne hm ..)
  | stopBegin => simp [notStopping] at hstop
  | stopper => simp [notStopping] at hstop

theorem step_idle (hs : step cfg s a = some t) (hstop : notStopping a = true) :
    t.stop = s.stop := by
  cases step_cases hs with
  | getIoCtx _ _ =>
    obtain ⟨_, _, heq, -⟩ := getIoCtx_cases cfg s _ _ _ _
    rw [heq]
  | stopBegin => simp [notStopping] at hstop
  | stopper => simp [notStopping] at hstop
  | _ => rfl

theorem reach_viewOk
    (h : Reach (step cfg) (fun s a => notStopping a = true ∧ postsBelowMax s a = true) {} s)
    (l : LaneId) : (view s l).Ok := by
  refine h.invariant (I := fun s => (view s l).Ok) ?_ ?_
  · simp [view, callsAt, modeOf, View.Ok, View.Free, Fifo.new, INT_MAX]
  · rintro s a t hok ⟨hstop, hmax⟩ hs
    rcases step_view hs hstop hmax l with hmove | heq
    · exact move_ok hok hmove
    · rwa [heq]

theorem callsAt_eq_zero {pc : CallPc} (h : ∀ c ∈ s.calls, c.pc ≠ pc) : callsAt s pc = 0 :=
  total_eq_zero fun c hc => if_neg (h c hc)

end Simulation

/-! ## The queues keep order -/

/-- The handler is blocked in `Semaphore::Wait`. -/
def Blocked (x : Lane) : Prop := x.pc = .asleep ∨ (x.pc = .semCheck ∧ x.inner = 0)

/-- What the workers are for. -/
structure Orderly (s : State) : Prop where
  /-- at most one worker was ever created for a pool -/
  oneWorker : s.workers.Nodup
  /-- `Queue` returns 0 only for a request that was put into a queue -/
  queued : ∀ k c, s.calls[k]? = some c → c.pc = .returned 0 → ∃ l, (k, l) ∈ s.enqLog
  /-- a queued request is in the queue once or has been taken out once, and is nowhere else -/
  once : ∀ k l, (k, l) ∈ s.enqLog →
    (dequeuedOn s l).count k + (s.lane l).queue.items.count k = 1 ∧
      ∀ m ≠ l, k ∉ dequeuedOn s m ++ (s.lane m).queue.items
  /-- for one pool and object, requests are handed on in the order they were put in -/
  order : ∀ poolId objectId,
    (s.handLog.map (·.call)).filter (isFor s poolId objectId) <+:
      (s.enqLog.map (·.1)).filter (isFor s poolId objectId)
  /-- no wakeup is lost -/
  awake : ∀ l, (s.lane l).queue.items ≠ [] → (∀ c ∈ s.calls, postsTo c.pc ≠ some l) →
    ¬ Blocked (s.lane l)

/-- **The queues keep order and lose no wakeup** in every run without `Stop` in which no
`PostOne` meets a count of `2^31 - 1`. -/
theorem queues_keep_order {cfg : Config} {s : State}
    (h : Reach (step cfg) (fun s a => notStopping a = true ∧ postsBelowMax s a = true) {} s) :
    Orderly s := by
  have hrun := reach_runInv h
  have hidle : s.stop = .idle :=
    h.invariant (I := fun s => s.stop = .idle) rfl fun s a t hidle hok hs =>
      (step_idle hs hok.1).trans hidle
  refine ⟨hrun.map.nodup hidle, ?_, fun k l hk => dequeued_once hrun hk,
    handed_prefix hrun hidle, ?_⟩
  · intro k c hk hpc
    simpa [CallOk, hpc] using hrun.calls.call hk
  · intro l hne hnone hblocked
    have hat : ∀ pc, postsTo pc = some l → callsAt s pc = 0 := fun pc hpc =>
      callsAt_eq_zero fun c hc heq => hnone c hc (heq ▸ hpc)
    refine (reach_viewOk h l).not_lost (List.length_pos_iff.mpr hne) (hat _ rfl) (hat _ rfl)
      (hat _ rfl) ?_
    rcases hblocked with hpc | ⟨hpc, hinner⟩
    · exact .inl (by simp [view, hpc, modeOf])
    · exact .inr ⟨by simp [view, hpc, modeOf], hinner⟩

/-- One handler thread and one client. -/
def oneThread : Config := ⟨1, Nat.one_pos, fun _ => 0, 0, by decide⟩

/-- Two requests for one object, the second queued before the first is drained. -/
theorem queues_keep_order_two_requests :
    ∃ s, Reach (step oneThread)
      (fun s a => notStopping a = true ∧ postsBelowMax s a = true) {} s ∧
      s.handLog.map (·.call) = [0, 1] ∧ Orderly s := by
  obtain ⟨s, hs, hp⟩ := exists_reach_of_checked (step oneThread)
    (fun s a => notStopping a = true ∧ postsBelowMax s a = true)
    (fun s a => notStopping a && postsBelowMax s a) {}
    ([[.call 0 [], .call 0 []], List.replicate 6 (.producer 0 true),
      List.replicate 5 (.producer 1 true), List.replicate 3 (.handler (0, 0)),
      [.getIoCtx (0, 0) fun _ => none, .handler (0, 0), .getIoCtx (0, 0) some,
        .aio (0, 0) 0]].flatten)
    (fun s => s.handLog.map (·.call) = [0, 1]) (by decide)
    (fun s a h => by simpa using h)
  exact ⟨s, hs, of_decide_eq_true hp, queues_keep_order hs⟩

theorem oneThread_index (objectId : Bytes) : oneThread.index objectId = 0 := by
  simp [Config.index, oneThread]

/-- A call that finds its worker and a count that is not negative. -/
theorem run_queue {s : State} {x : Lane} (hw : s.ioWorkers.lookup 0 = some 0)
    (hdel : s.deleted 0 = false) (hx : s.lane (0, 0) = x) (hcount : 0 ≤ x.count) :
    run (step oneThread) s
      (.call 0 [] :: List.replicate 5 (.producer s.calls.length true)) =
      some { s with
        calls := s.calls ++ [{ poolId := 0, objectId := [], pc := .returned 0 }]
        lane := Function.update s.lane (0, 0)
          { x with queue := x.queue.enqueue s.calls.length, count := int32 (x.count + 1) }
        enqLog := s.enqLog ++ [(s.calls.length, 0, 0)] } := by
  simp [run, step, State.producer, State.setCall, State.setLane, hw, hdel, hx, oneThread_index,
    List.replicate, not_lt.mpr hcount]

/-- The handler takes one request and finds no context for it. -/
theorem run_drain {s : State} {x : Lane} {k : ℕ} {c : Call} {q : Fifo ℕ}
    (hw : s.workers.length = 1) (hx : s.lane (0, 0) = x) (hpc : x.pc = .dequeue)
    (hq : x.queue.dequeue = some (k, q)) (hk : s.calls[k]? = some c) (hmap : s.pMap = []) :
    run (step oneThread) s [.handler (0, 0), .getIoCtx (0, 0) fun _ => none] =
      some { s with
        lane := Function.update s.lane (0, 0) { x with queue := q, pc := .dequeue }
        count := (s.count + 1) % 2 ^ 32
        ctxLog := s.ctxLog ++ [⟨k, 0, none⟩]
        handLog := s.handLog ++ [⟨k, (0, 0), .noIoCtx⟩] } := by
  simp [run, step, State.hasHandler, Lane.handler, hw, hx, hpc, hq, hk, hmap, State.setLane,
    State.getIoCtx, State.getIoCtxWithClient, oneThread, Config.clientNum]

/-- The handler is in its drain loop with nothing to drain, and the count stands at `n`. -/
structure Busy (n : ℤ) (s : State) : Prop where
  map : s.ioWorkers.lookup 0 = some 0
  workers : s.workers.length = 1
  deleted : s.deleted 0 = false
  running : s.ioworkerStop 0 = false
  pMap : s.pMap = []
  calls : ∀ c ∈ s.calls, postsTo c.pc = none
  pc : (s.lane (0, 0)).pc = .dequeue
  items : (s.lane (0, 0)).queue.items = []
  count : (s.lane (0, 0)).count = n
  inner : (s.lane (0, 0)).inner = 0

/-- The first request: its post is the one that lets the handler in. -/
theorem exists_busy :
    ∃ s, Reach (step oneThread) (fun _ a => notStopping a = true) {} s ∧ Busy 0 s := by
  obtain ⟨s, hs, hp⟩ := exists_reach_of_run (step oneThread)
    (fun _ a => notStopping a = true) {}
    (.call 0 [] :: List.replicate 6 (.producer 0 true) ++
      [.handler (0, 0), .handler (0, 0), .handler (0, 0), .getIoCtx (0, 0) fun _ => none])
    (fun s => s.ioWorkers.lookup 0 = some 0 && s.workers.length = 1 && !s.deleted 0 &&
      !s.ioworkerStop 0 && s.pMap = [] && s.calls.all (fun c => postsTo c.pc = none) &&
      (s.lane (0, 0)).pc = .dequeue && (s.lane (0, 0)).queue.items = [] &&
      (s.lane (0, 0)).count = 0 && (s.lane (0, 0)).inner = 0)
    (by decide) (by simp [List.replicate, notStopping])
  simp only [Bool.and_eq_true, decide_eq_true_eq, Bool.not_eq_true', List.all_eq_true] at hp
  obtain ⟨⟨⟨⟨⟨⟨⟨⟨⟨h1, h2⟩, h3⟩, h4⟩, h5⟩, h6⟩, h7⟩, h8⟩, h9⟩, h10⟩ := hp
  exact ⟨s, hs, ⟨h1, h2, h3, h4, h5, h6, h7, h8, h9, h10⟩⟩

/-- One more request, queued and drained before the handler leaves its loop. -/
theorem Busy.succ {n : ℤ} {s : State} (h : Busy n s) (hn : 0 ≤ n) :
    ∃ t, Reach (step oneThread) (fun _ a => notStopping a = true) s t ∧
      Busy (int32 (n + 1)) t := by
  obtain ⟨q, hq, hitems⟩ := Fifo.exists_dequeue
    (show ((s.lane (0, 0)).queue.enqueue s.calls.length).items = [s.calls.length] by
      simp [h.items])
  -- the producer's steps, then the handler's back to where it was
  have hpost := run_queue h.map h.deleted rfl (by rw [h.count]; exact hn)
  have hdrain := run_drain
    (s := { s with
      calls := s.calls ++ [{ poolId := 0, objectId := [], pc := .returned 0 }]
      lane := Function.update s.lane (0, 0)
        { s.lane (0, 0) with
          queue := (s.lane (0, 0)).queue.enqueue s.calls.length
          count := int32 ((s.lane (0, 0)).count + 1) }
      enqLog := s.enqLog ++ [(s.calls.length, 0, 0)] })
    (x := { s.lane (0, 0) with
      queue := (s.lane (0, 0)).queue.enqueue s.calls.length
      count := int32 ((s.lane (0, 0)).count + 1) })
    h.workers (by simp) h.pc hq List.getElem?_concat_length h.pMap
  refine ⟨_, (reach_of_run hpost (by simp [List.replicate, notStopping])).trans
    (reach_of_run hdrain (by simp [notStopping])), ?_⟩
  exact {
    map := h.map
    workers := h.workers
    deleted := h.deleted
    running := h.running
    pMap := h.pMap
    calls := by
      intro c hc
      rcases List.mem_append.mp hc with hc | hc
      · exact h.calls c hc
      · rw [List.mem_singleton.mp hc]
        rfl
    pc := by simp
    items := by simp [hitems]
    count := by simp [h.count]
    inner := by simp [h.inner] }

/-- The count goes up with the requests, as long as the handler stays in its loop. -/
theorem exists_busy_at (n : ℕ) (hn : (n : ℤ) ≤ INT_MAX) :
    ∃ s, Reach (step oneThread) (fun _ a => notStopping a = true) {} s ∧ Busy n s := by
  induction n with
  | zero => exact exists_busy
  | succ n ih =>
    unfold INT_MAX at hn
    push_cast at hn
    obtain ⟨s, hs, hbusy⟩ := ih (by unfold INT_MAX; omega)
    obtain ⟨t, ht, hsucc⟩ := hbusy.succ (by omega)
    rw [int32_of_mem (by omega) (by omega)] at hsucc
    exact ⟨t, hs.trans ht, by exact_mod_cast hsucc⟩

/-- From the smallest count the handler goes to sleep, and the next post sees the largest. -/
theorem Busy.lost {s : State} (h : Busy (-2 ^ 31) s) :
    ∃ t, Reach (step oneThread) (fun _ a => notStopping a = true) s t ∧
      (t.lane (0, 0)).queue.items ≠ [] ∧ (∀ c ∈ t.calls, postsTo c.pc ≠ some (0, 0)) ∧
      (t.lane (0, 0)).pc = .asleep ∧ (t.lane (0, 0)).inner = 0 := by
  have hempty : (s.lane (0, 0)).queue.dequeue = none := Fifo.dequeue_eq_none.mpr h.items
  have hwrap : int32 (-2147483649) = 2147483647 := by decide
  -- finds the queue empty, tests the flag, subtracts, finds the inner semaphore at zero
  have hsleep : run (step oneThread) s (List.replicate 4 (.handler (0, 0))) =
      some (s.setLane (0, 0) { s.lane (0, 0) with count := 2 ^ 31 - 1, pc := .asleep }) := by
    simp [run, step, List.replicate, State.hasHandler, Lane.handler, h.workers, h.pc, hempty,
      h.running, h.count, h.inner, State.setLane, oneThread, hwrap]
  have hpost := run_queue
    (s := s.setLane (0, 0) { s.lane (0, 0) with count := 2 ^ 31 - 1, pc := .asleep })
    (x := { s.lane (0, 0) with count := 2 ^ 31 - 1, pc := .asleep })
    h.map h.deleted (by simp [State.setLane]) (by simp)
  refine ⟨_, (reach_of_run hsleep (by simp [notStopping])).trans
    (reach_of_run hpost (by simp [List.replicate, notStopping])), ?_, ?_, ?_, ?_⟩
  · simp
  · intro c hc
    rcases List.mem_append.mp hc with hc | hc
    · simp [h.calls c hc]
    · simp [List.mem_singleton.mp hc, postsTo]
  · simp
  · simp [h.inner]

/-- Had the handler been busy for `2^31` requests, the next one would be left behind. -/
theorem lost_wakeup_after_wrap :
    ¬ ∀ (cfg : Config) (s : State),
      Reach (step cfg) (fun _ a => notStopping a = true) {} s →
        ∀ l, (s.lane l).queue.items ≠ [] → (∀ c ∈ s.calls, postsTo c.pc ≠ some l) →
          ¬ ((s.lane l).pc = .asleep ∧ (s.lane l).inner = 0) := by
  intro hall
  obtain ⟨s, hs, hbusy⟩ := exists_busy_at (2 ^ 31 - 1) (by decide)
  -- one post more and the count is negative
  obtain ⟨t, ht, hwrapped⟩ := hbusy.succ (by omega)
  have hwrap : int32 (((2 ^ 31 - 1 : ℕ) : ℤ) + 1) = -2 ^ 31 := by decide
  rw [hwrap] at hwrapped
  obtain ⟨u, hu, hitems, hcalls, hpc, hinner⟩ := hwrapped.lost
  exact hall oneThread u ((hs.trans ht).trans hu) (0, 0) hitems hcalls ⟨hpc, hinner⟩

end GcAdaptor.WorkerOrder
