/-
What `RadosWorker::Stop` leaves behind.

`WaitForEmpty` raises the worker's flag and posts each semaphore once; it does not
look at the queues. A handler tests the flag after it has found its queue empty
and before it waits again, so a request that is queued in between is drained if the
test comes first, and left in the queue if the flag does.

`StopInv` is the invariant of the runs in which the flag never comes first: past
the flag, a handler at its test or beyond has none of the requests in its queue that
`Queue` had accepted before `Stop` began. `no_request_lost` reads it off at the end.
-/
import GcAdaptor.WorkerOrder

set_option autoImplicit false

namespace GcAdaptor.WorkerStop

open GcAdaptor.Interleave GcAdaptor.LinkedQueue GcAdaptor.RadosWorker GcAdaptor.WorkerOrder

/-! ## One lane in one step -/

/-- What a step can do to a lane whose worker has the flag `stopped`; `new` is the request
an `Enqueue` adds. -/
structure LaneKept (stopped : Bool) (new : Option ℕ) (x y : Lane) : Prop where
  /-- a thread that has ended stays ended -/
  exited : x.pc = .exited → y.pc = .exited
  /-- it ends at its test, by the flag -/
  exits : y.pc = .exited → x.pc = .exited ∨ (x.pc = .test ∧ stopped = true)
  /-- it comes to its test from an empty queue -/
  tests : y.pc = .test → x.pc = .test ∨ y.queue.items = []
  items : ∀ k ∈ y.queue.items, k ∈ x.queue.items ∨ new = some k

section Lanes

variable {b : Bool} {x y : Lane} {new : Option ℕ}

theorem LaneKept.refl : LaneKept b new x x :=
  ⟨id, .inl, .inl, fun _ hk => .inl hk⟩

/-- Same queue, and a pc that is neither left nor reached at the flag. -/
theorem LaneKept.of_pc (hq : y.queue = x.queue)
    (hpc : y.pc = x.pc ∨ (x.pc ≠ .exited ∧ y.pc ≠ .exited ∧ y.pc ≠ .test)) :
    LaneKept b new x y := by
  refine ⟨?_, ?_, ?_, fun k hk => .inl (hq ▸ hk)⟩
  · intro hx
    rcases hpc with hpc | ⟨hne, -, -⟩
    · rw [hpc, hx]
    · exact absurd hx hne
  · intro hy
    rcases hpc with hpc | ⟨-, hne, -⟩
    · exact .inl (hpc ▸ hy)
    · exact absurd hy hne
  · intro hy
    rcases hpc with hpc | ⟨-, -, hne⟩
    · exact .inl (hpc ▸ hy)
    · exact absurd hy hne

theorem laneKept_notify : LaneKept b new x x.notify := by
  refine .of_pc rfl ?_
  rcases notify_pcKept x with h | ⟨hx, hy⟩
  · exact .inl h
  · exact .inr ⟨by simp [hx], by simp [hy], by simp [hy]⟩

theorem laneKept_handler (h : x.handler b = some y) : LaneKept b new x y := by
  unfold Lane.handler at h
  cases hpc : x.pc with
  | test =>
    simp only [hpc, Option.some.injEq] at h
    subst h
    cases b with
    | false => exact .of_pc rfl (.inr ⟨by simp [hpc], by simp, by simp⟩)
    | true =>
      refine ⟨fun _ => rfl, fun _ => .inr ⟨hpc, rfl⟩, fun htest => ?_, fun _ hk => .inl hk⟩
      simp at htest
  | fetchSub =>
    simp only [hpc, Option.some.injEq] at h
    subst h
    refine .of_pc rfl (.inr ⟨by simp [hpc], ?_, ?_⟩) <;> (simp only; split_ifs <;> simp)
  | semCheck =>
    simp only [hpc] at h
    split at h <;> obtain rfl := Option.some.inj h <;>
      exact .of_pc rfl (.inr ⟨by simp [hpc], by simp, by simp⟩)
  | dequeue =>
    simp only [hpc] at h
    cases hq : x.queue.dequeue with
    | none =>
      simp only [hq, Option.some.injEq] at h
      subst h
      -- the one way to the test: the queue has just been found empty
      exact ⟨by simp [hpc], by simp, fun _ => .inr (Fifo.dequeue_eq_none.mp hq),
        fun _ hk => .inl hk⟩
    | some r =>
      obtain ⟨k, q⟩ := r
      simp only [hq, Option.some.injEq] at h
      subst h
      refine ⟨by simp [hpc], by simp, by simp, fun j hj => .inl ?_⟩
      rw [Fifo.dequeue_eq_some hq]
      exact List.mem_cons_of_mem k hj
  | _ => simp [hpc] at h

/-- A lane changed, all others not. -/
theorem laneKept_update {s : State} {l₀ : LaneId}
    (h : LaneKept (s.ioworkerStop l₀.1) new (s.lane l₀) x) (l : LaneId) :
    LaneKept (s.ioworkerStop l.1) new (s.lane l) (Function.update s.lane l₀ x l) := by
  by_cases hl : l = l₀
  · subst hl
    rw [Function.update_self]
    exact h
  · rw [Function.update_of_ne hl]
    exact .refl

end Lanes

/-- What a step of producers, handlers and clients does as far as `Stop` can see. -/
structure WorkFrame (s t : State) (new : Option ℕ) : Prop where
  stop : t.stop = s.stop
  stopSet : t.stopSet = s.stopSet
  ioworkerStop : t.ioworkerStop = s.ioworkerStop
  /-- what is put into a queue belongs to a call that has not returned -/
  fresh : ∀ {k : ℕ}, new = some k → ∃ c w, s.calls[k]? = some c ∧ c.pc = .enqueue w
  returned : ∀ {k : ℕ} {c : Call}, s.calls[k]? = some c → c.pc = .returned 0 →
    t.calls[k]? = some c
  lane : ∀ l, LaneKept (s.ioworkerStop l.1) new (s.lane l) (t.lane l)
  enqLog : ∀ e ∈ t.enqLog, e ∈ s.enqLog ∨ new = some e.1

section Work

variable {cfg : Config} {s t : State} {a : Act} {k : ℕ} {c d : Call} {new : Option ℕ}

/-- Moving a call that has not returned 0 touches no call that has. -/
theorem returned_set (hk : s.calls[k]? = some c) (hpc : c.pc ≠ .returned 0)
    (hcalls : t.calls = s.calls.set k d) {j : ℕ} {e : Call} (hj : s.calls[j]? = some e)
    (hret : e.pc = .returned 0) : t.calls[j]? = some e := by
  have hne : k ≠ j := by
    rintro rfl
    obtain rfl : c = e := Option.some.inj (hk.symm.trans hj)
    exact hpc hret
  rw [hcalls, List.getElem?_set_ne hne, hj]

theorem early_not_returned {pc : CallPc} (h : Early s c pc) : c.pc ≠ .returned 0 := by
  intro hret
  have hno := early_not_enqueued h
  simp [Enqueued, hret] at hno

theorem step_workFrame (hs : step cfg s a = some t) (hstop : notStopping a = true) :
    ∃ new, WorkFrame s t new := by
  cases step_cases hs with
  | call =>
    refine ⟨none, rfl, rfl, rfl, by simp, ?_, fun _ => .refl, fun _ he => .inl he⟩
    intro j e hj _
    exact getElem?_of_isPrefix (List.prefix_append _ _) hj
  | early hk he =>
    exact ⟨none, rfl, rfl, rfl, by simp, returned_set hk (early_not_returned he) rfl,
      fun _ => .refl, fun _ he => .inl he⟩
  | create hk hpc =>
    exact ⟨none, rfl, rfl, rfl, by simp, returned_set hk (by simp [hpc]) rfl,
      fun _ => .refl, fun _ he => .inl he⟩
  | @enqueue k c _ w l hk hpc =>
    -- the one step that puts something into a queue
    have hkept : LaneKept (s.ioworkerStop l.1) (some k) (s.lane l)
        { s.lane l with queue := (s.lane l).queue.enqueue k } := by
      refine ⟨id, .inl, .inl, fun j hj => ?_⟩
      simpa [eq_comm] using hj
    refine ⟨some k, rfl, rfl, rfl, ?_, returned_set hk (by simp [hpc]) rfl,
      laneKept_update hkept, ?_⟩
    · intro j hj
      obtain rfl : k = j := Option.some.inj hj
      exact ⟨c, w, hk, hpc⟩
    · intro e he
      rcases List.mem_append.mp he with he | he
      · exact .inl he
      · rw [List.mem_singleton.mp he]
        exact .inr rfl
  | fetchAdd hk hpc =>
    exact ⟨none, rfl, rfl, rfl, by simp, returned_set hk (by simp [hpc]) rfl,
      laneKept_update (.of_pc rfl (.inl rfl)), fun _ he => .inl he⟩
  | semPost hk hpc =>
    exact ⟨none, rfl, rfl, rfl, by simp, returned_set hk (by simp [hpc]) rfl,
      laneKept_update (.of_pc rfl (.inl rfl)), fun _ he => .inl he⟩
  | notify hk hpc =>
    exact ⟨none, rfl, rfl, rfl, by simp, returned_set hk (by simp [hpc]) rfl,
      laneKept_update laneKept_notify, fun _ he => .inl he⟩
  | handler _ hx =>
    exact ⟨none, rfl, rfl, rfl, by simp, fun hj _ => hj, laneKept_update (laneKept_handler hx),
      fun _ he => .inl he⟩
  | wake hpc =>
    exact ⟨none, rfl, rfl, rfl, by simp, fun hj _ => hj,
      laneKept_update (.of_pc rfl (.inr ⟨by simp [hpc], by simp, by simp⟩)), fun _ he => .inl he⟩
  | getIoCtx hpc _ =>
    obtain ⟨pc, ended, heq, hpc'⟩ := getIoCtx_cases cfg s _ _ _ _
    rw [heq]
    refine ⟨none, rfl, rfl, rfl, by simp, fun hj _ => hj, laneKept_update (.of_pc rfl (.inr ?_)),
      fun _ he => .inl he⟩
    obtain ⟨rfl, -⟩ | ⟨ioctx, -, rfl, -⟩ := hpc' <;> simp [hpc]
  | aio hpc =>
    exact ⟨none, rfl, rfl, rfl, by simp, fun hj _ => hj,
      laneKept_update (.of_pc rfl (.inr ⟨by simp [hpc], by simp, by simp⟩)), fun _ he => .inl he⟩
  | stopBegin => simp [notStopping] at hstop
  | stopper => simp [notStopping] at hstop

end Work

/-! ## The invariant of a run with `Stop` -/

/-- The workers `Stop` has not done with. -/
def pending : StopPc → List ℕ
  | .idle | .done => []
  | .setFlag w rest | .fetchAdd w _ rest | .semPost w _ rest | .notify w _ rest
  | .setFlagAgain w rest | .join w _ rest | .delete w rest => w :: rest

/-- The worker whose flag `Stop` has raised and that it has not done with. -/
def raised : StopPc → Option ℕ
  | .idle | .done | .setFlag .. => none
  | .fetchAdd w _ _ | .semPost w _ _ | .notify w _ _ | .setFlagAgain w _ | .join w _ _
  | .delete w _ => some w

/-- The threads `Stop` has joined have ended. -/
def Joined (cfg : Config) (s : State) : Prop :=
  match s.stop with
  | .join w i _ => ∀ j < i, (s.lane (w, j)).pc = .exited
  | .delete w _ => ∀ j < cfg.threadNum, (s.lane (w, j)).pc = .exited
  | _ => True

structure StopInv (cfg : Config) (s : State) : Prop where
  quiet : s.stop = .idle → ∀ w, s.ioworkerStop w = false
  flagged : ∀ {w}, raised s.stop = some w → s.ioworkerStop w = true
  exited : ∀ {l}, (s.lane l).pc = .exited → s.ioworkerStop l.1 = true
  /-- past the flag, a handler at its test or beyond has nothing left that counts -/
  drained : ∀ {l : LaneId}, l.2 < cfg.threadNum → s.ioworkerStop l.1 = true →
    (s.lane l).pc = .test ∨ (s.lane l).pc = .exited →
    ∀ k ∈ s.stopSet, k ∉ (s.lane l).queue.items
  returned : ∀ k ∈ s.stopSet, ∃ c, s.calls[k]? = some c ∧ c.pc = .returned 0
  joined : Joined cfg s
  covered : ∀ k ∈ s.stopSet, ∀ l, (k, l) ∈ s.enqLog →
    l.1 ∈ pending s.stop ∨ ∀ j < cfg.threadNum, (s.lane (l.1, j)).pc = .exited

/-- When `WaitForEmpty` raises a flag, no handler that is at its test of it has a request in
its queue that was accepted before `Stop` began. -/
def testsDrained (cfg : Config) (s : State) : Act → Bool
  | .stopper =>
    match s.stop with
    | .setFlag w _ =>
      (List.range cfg.threadNum).all fun i =>
        (s.lane (w, i)).pc ≠ .test || (s.lane (w, i)).queue.items.all fun k => k ∉ s.stopSet
    | _ => true
  | _ => true

section Invariant

variable {cfg : Config} {s t : State} {a : Act}

theorem StopInv.init : StopInv cfg {} :=
  ⟨fun _ _ => rfl, by simp [raised], by simp, by simp, by simp, trivial, by simp⟩

theorem joined_mono (h : Joined cfg s) (hstop : t.stop = s.stop)
    (hexited : ∀ l, (s.lane l).pc = .exited → (t.lane l).pc = .exited) : Joined cfg t := by
  unfold Joined at h ⊢
  rw [hstop]
  cases hs : s.stop with
  | join w i rest =>
    simp only [hs] at h
    intro j hj
    exact hexited _ (h j hj)
  | delete w rest =>
    simp only [hs] at h
    intro j hj
    exact hexited _ (h j hj)
  | _ => trivial

/-- What is put into a queue now was not accepted before. -/
theorem StopInv.fresh_not_mem {new : Option ℕ} {k : ℕ} (h : StopInv cfg s)
    (hf : WorkFrame s t new) (hnew : new = some k) : k ∉ s.stopSet := by
  intro hk
  -- its call is before `Enqueue`, those of the set have returned
  obtain ⟨c, w, hc, hpc⟩ := hf.fresh hnew
  obtain ⟨d, hd, hret⟩ := h.returned k hk
  obtain rfl : c = d := Option.some.inj (hc.symm.trans hd)
  simp [hpc] at hret

/-- Producers, handlers and clients keep the invariant. -/
theorem StopInv.work {new : Option ℕ} (h : StopInv cfg s) (hf : WorkFrame s t new) :
    StopInv cfg t := by
  have hexited : ∀ l, (s.lane l).pc = .exited → (t.lane l).pc = .exited :=
    fun l => (hf.lane l).exited
  refine ⟨?_, ?_, ?_, ?_, ?_, joined_mono h.joined hf.stop hexited, ?_⟩
  · rw [hf.stop, hf.ioworkerStop]
    exact h.quiet
  · rw [hf.stop, hf.ioworkerStop]
    exact h.flagged
  · intro l hl
    rw [hf.ioworkerStop]
    rcases (hf.lane l).exits hl with hold | ⟨-, hflag⟩
    · exact h.exited hold
    · exact hflag
  · intro l hlt hflag hpc k hk hmem
    rw [hf.ioworkerStop] at hflag
    rw [hf.stopSet] at hk
    -- the handler was at its test or beyond before, unless it has just emptied the queue
    have hbefore : (s.lane l).pc = .test ∨ (s.lane l).pc = .exited := by
      rcases hpc with hpc | hpc
      · rcases (hf.lane l).tests hpc with hold | hnil
        · exact .inl hold
        · simp [hnil] at hmem
      · rcases (hf.lane l).exits hpc with hold | ⟨hold, -⟩
        · exact .inr hold
        · exact .inl hold
    rcases (hf.lane l).items k hmem with hold | hnew
    · exact h.drained hlt hflag hbefore k hk hold
    · exact h.fresh_not_mem hf hnew hk
  · intro k hk
    rw [hf.stopSet] at hk
    obtain ⟨c, hc, hret⟩ := h.returned k hk
    exact ⟨c, hf.returned hc hret, hret⟩
  · intro k hk l hl
    rw [hf.stopSet] at hk
    rw [hf.stop]
    rcases hf.enqLog _ hl with hl | hnew
    · rcases h.covered k hk l hl with hpend | hex
      · exact .inl hpend
      · exact .inr fun j hj => hexited _ (hex j hj)
    · exact absurd hk (h.fresh_not_mem hf hnew)

theorem pending_nextWorker (ws : List ℕ) : pending (nextWorker ws) = ws := by
  cases ws <;> rfl

theorem mem_returnedIds {k : ℕ} (h : k ∈ s.returnedIds) :
    ∃ c, s.calls[k]? = some c ∧ c.pc = .returned 0 := by
  unfold State.returnedIds at h
  obtain ⟨-, hany⟩ := List.mem_filter.mp h
  obtain ⟨c, hc, hpc⟩ := (Option.any_eq_true _ _).mp hany
  exact ⟨c, hc, of_decide_eq_true hpc⟩

/-- When `Stop` begins, the worker of every queued request is in its map. -/
theorem worker_mem_map (hrun : RunInv cfg s) (hidle : s.stop = .idle) {k : ℕ} {l : LaneId}
    (hl : (k, l) ∈ s.enqLog) : l.1 ∈ s.ioWorkers.map (·.2) := by
  obtain ⟨c, -, -, hwork, -⟩ := hrun.calls.entry hl
  have hmem : c.poolId ∈ s.workers := List.mem_of_getElem? hwork
  obtain ⟨w, hw⟩ := Option.ne_none_iff_exists'.mp (hrun.map.complete hidle _ hmem)
  rw [hrun.map.unique hidle hwork (hrun.map.sound hw)]
  obtain ⟨before, after, heq, -⟩ := List.lookup_eq_some_iff.mp hw
  rw [heq]
  simp

theorem StopInv.begin (h : StopInv cfg s) (hrun : RunInv cfg s) (hidle : s.stop = .idle) :
    StopInv cfg
      { s with stop := nextWorker (s.ioWorkers.map (·.2)), stopSet := s.returnedIds } := by
  have hflag := h.quiet hidle
  refine ⟨fun hnot => absurd hnot (nextWorker_ne_idle _), ?_, h.exited, ?_,
    fun k hk => mem_returnedIds hk, ?_, ?_⟩
  · intro w hw
    cases hws : s.ioWorkers.map (·.2) <;> simp [hws, nextWorker, raised] at hw
  · intro l _ hup
    rw [hflag l.1] at hup
    exact absurd hup (by simp)
  · unfold Joined
    cases hws : s.ioWorkers.map (·.2) <;> simp [nextWorker]
  · intro k _ l hl
    left
    rw [pending_nextWorker]
    exact worker_mem_map hrun hidle hl

/-- A step of `Stop` that raises no flag: the lanes keep their queues, no handler comes to its
test or ends, and a worker `Stop` is done with has been joined. -/
theorem StopInv.goOn (h : StopInv cfg s) (hf : StopFrame s t)
    (hflags : t.ioworkerStop = s.ioworkerStop)
    (hraised : ∀ w, raised t.stop = some w → raised s.stop = some w)
    (hpend : ∀ w ∈ pending s.stop,
      w ∈ pending t.stop ∨ ∀ j < cfg.threadNum, (s.lane (w, j)).pc = .exited)
    (hjoined : Joined cfg t) : StopInv cfg t := by
  -- a handler that `Stop` has moved was asleep and is awake
  have hpc : ∀ l, (t.lane l).pc = (s.lane l).pc ∨
      ((t.lane l).pc ≠ .test ∧ (t.lane l).pc ≠ .exited ∧ (s.lane l).pc ≠ .exited) := by
    intro l
    rcases hf.pc l with heq | ⟨hold, hnew⟩
    · exact .inl heq
    · exact .inr ⟨by simp [hnew], by simp [hnew], by simp [hold]⟩
  refine ⟨fun hidle => absurd hidle hf.stop, ?_, ?_, ?_, ?_, hjoined, ?_⟩
  · intro w hw
    rw [hflags]
    exact h.flagged (hraised w hw)
  · intro l hl
    rw [hflags]
    rcases hpc l with heq | ⟨-, hne, -⟩
    · exact h.exited (heq ▸ hl)
    · exact absurd hl hne
  · intro l hlt hup hpos k hk
    rw [hflags] at hup
    rw [hf.stopSet] at hk
    rw [hf.queue l]
    rcases hpc l with heq | ⟨hnt, hne, -⟩
    · rw [heq] at hpos
      exact h.drained hlt hup hpos k hk
    · exact absurd hpos (by simp [hnt, hne])
  · rw [hf.stopSet, hf.calls]
    exact h.returned
  · intro k hk l hl
    rw [hf.stopSet] at hk
    rw [hf.enqLog] at hl
    have hmono : (∀ j < cfg.threadNum, (s.lane (l.1, j)).pc = .exited) →
        ∀ j < cfg.threadNum, (t.lane (l.1, j)).pc = .exited := by
      intro hex j hj
      rcases hpc (l.1, j) with heq | ⟨-, -, hne⟩
      · rw [heq, hex j hj]
      · exact absurd (hex j hj) hne
    rcases h.covered k hk l hl with hin | hex
    · exact (hpend _ hin).imp_right hmono
    · exact .inr (hmono hex)

/-- `Stop` is at worker `w`, with the flag up and `rest` to come. -/
def AtWorker (w : ℕ) (rest : List ℕ) (pc : StopPc) : Prop :=
  pending pc = w :: rest ∧ raised pc = some w

theorem atWorker_nextPost (cfg : Config) (w i : ℕ) (rest : List ℕ) :
    AtWorker w rest (nextPost cfg w i rest) := by
  unfold nextPost
  split_ifs <;> exact ⟨rfl, rfl⟩

theorem atWorker_nextJoin (cfg : Config) (w i : ℕ) (rest : List ℕ) :
    AtWorker w rest (nextJoin cfg w i rest) := by
  unfold nextJoin
  split_ifs <;> exact ⟨rfl, rfl⟩

/-- A step of `Stop` that stays at its worker. -/
theorem StopInv.stay {w : ℕ} {rest : List ℕ} (h : StopInv cfg s) (hf : StopFrame s t)
    (hflags : t.ioworkerStop = s.ioworkerStop) (hs : AtWorker w rest s.stop)
    (ht : AtWorker w rest t.stop) (hjoined : Joined cfg t) : StopInv cfg t := by
  refine h.goOn hf hflags (fun v hv => ?_) (fun v hv => .inl ?_) hjoined
  · rw [hs.2, ← hv, ht.2]
  · rw [ht.1, ← hs.1]
    exact hv

theorem joined_nextPost {w i : ℕ} {rest : List ℕ} (h : t.stop = nextPost cfg w i rest) :
    Joined cfg t := by
  unfold Joined
  rw [h]
  unfold nextPost
  split_ifs <;> trivial

theorem joined_nextJoin {w i : ℕ} {rest : List ℕ} (h : t.stop = nextJoin cfg w i rest)
    (hj : ∀ j < i, (t.lane (w, j)).pc = .exited) : Joined cfg t := by
  unfold Joined
  rw [h]
  unfold nextJoin
  split_ifs with hi
  · exact hj
  · intro j hlt
    exact hj j (by omega)

/-- The flag goes up: here the condition is used. -/
theorem StopInv.raise {w : ℕ} {rest : List ℕ} (h : StopInv cfg s)
    (hs : s.stop = .setFlag w rest) (hok : testsDrained cfg s .stopper = true) :
    StopInv cfg
      { s with
        ioworkerStop := Function.update s.ioworkerStop w true
        stop := nextPost cfg w 0 rest } := by
  obtain ⟨hpend, hraised⟩ := atWorker_nextPost cfg w 0 rest
  have hup : ∀ v, s.ioworkerStop v = true → Function.update s.ioworkerStop w true v = true := by
    intro v hv
    by_cases hvw : v = w
    · rw [hvw, Function.update_self]
    · rw [Function.update_of_ne hvw, hv]
  refine ⟨fun hidle => absurd hidle (nextPost_ne_idle _ _ _ _), ?_, fun hl => hup _ (h.exited hl),
    ?_, h.returned, joined_nextPost rfl, ?_⟩
  · intro v hv
    rw [hraised] at hv
    obtain rfl : w = v := Option.some.inj hv
    exact Function.update_self ..
  · intro l hlt hflag hpos k hk
    rcases hpos with htest | hex
    · by_cases hlw : l.1 = w
      · -- a handler of this worker at its test: exactly what the condition is about
        subst hlw
        simp only [testsDrained, hs, List.all_eq_true, List.mem_range, Bool.or_eq_true,
          decide_eq_true_eq] at hok
        rcases hok l.2 hlt with hne | hall
        · exact absurd htest hne
        · intro hmem
          exact hall k hmem hk
      · have hold : s.ioworkerStop l.1 = true :=
          (Function.update_of_ne hlw true s.ioworkerStop).symm.trans hflag
        exact h.drained hlt hold (.inl htest) k hk
    · exact h.drained hlt (h.exited hex) (.inr hex) k hk
  · intro k hk l hl
    have hcov := h.covered k hk l hl
    rw [hs] at hcov
    exact hcov.imp_left fun hin => hpend ▸ hin

theorem StopInv.stopper (h : StopInv cfg s) (hst : s.stopper cfg = some t)
    (hok : testsDrained cfg s .stopper = true) : StopInv cfg t := by
  have hf := stopper_frame hst
  unfold State.stopper at hst
  cases hs : s.stop with
  | idle => simp [hs] at hst
  | done => simp [hs] at hst
  | setFlag w rest =>
    simp only [hs, Option.some.injEq] at hst
    exact hst ▸ h.raise hs hok
  | fetchAdd w i rest =>
    simp only [hs, Option.some.injEq] at hst
    have hat : AtWorker w rest s.stop := hs ▸ ⟨rfl, rfl⟩
    subst hst
    by_cases hneg : (s.lane (w, i)).count < 0
    · refine h.stay hf rfl hat ?_ (by simp [Joined, hneg])
      simp only [if_pos hneg]
      exact ⟨rfl, rfl⟩
    · refine h.stay hf rfl hat ?_ (joined_nextPost (if_neg hneg))
      simp only [if_neg hneg]
      exact atWorker_nextPost cfg w (i + 1) rest
  | semPost w i rest =>
    simp only [hs, Option.some.injEq] at hst
    subst hst
    exact h.stay hf rfl (hs ▸ ⟨rfl, rfl⟩) ⟨rfl, rfl⟩ trivial
  | notify w i rest =>
    simp only [hs, Option.some.injEq] at hst
    subst hst
    exact h.stay hf rfl (hs ▸ ⟨rfl, rfl⟩) (atWorker_nextPost cfg w (i + 1) rest)
      (joined_nextPost rfl)
  | setFlagAgain w rest =>
    simp only [hs, Option.some.injEq] at hst
    -- the flag is up already
    have hsame : Function.update s.ioworkerStop w true = s.ioworkerStop := by
      have hup : s.ioworkerStop w = true := h.flagged (by rw [hs]; rfl)
      rw [← hup, Function.update_eq_self]
    subst hst
    exact h.stay hf hsame (hs ▸ ⟨rfl, rfl⟩) (atWorker_nextJoin cfg w 0 rest)
      (joined_nextJoin rfl (by simp))
  | join w i rest =>
    simp only [hs] at hst
    split_ifs at hst with hex
    obtain rfl := Option.some.inj hst
    have hbefore : ∀ j < i, (s.lane (w, j)).pc = .exited := by
      simpa [Joined, hs] using h.joined
    refine h.stay hf rfl (hs ▸ ⟨rfl, rfl⟩) (atWorker_nextJoin cfg w (i + 1) rest)
      (joined_nextJoin rfl fun j hj => ?_)
    rcases Nat.lt_succ_iff_lt_or_eq.mp hj with hlt | rfl
    · exact hbefore j hlt
    · exact hex
  | delete w rest =>
    simp only [hs, Option.some.injEq] at hst
    subst hst
    -- every thread of the worker has been joined
    have hall : ∀ j < cfg.threadNum, (s.lane (w, j)).pc = .exited := by
      simpa [Joined, hs] using h.joined
    refine h.goOn hf rfl ?_ ?_ ?_
    · intro v hv
      cases rest <;> simp [nextWorker, raised] at hv
    · intro v hv
      rw [hs] at hv
      rcases List.mem_cons.mp hv with rfl | hv
      · exact .inr hall
      · left
        rw [pending_nextWorker]
        exact hv
    · unfold Joined
      cases rest <;> trivial

theorem step_stopInv (hrun : RunInv cfg s) (h : StopInv cfg s) (hs : step cfg s a = some t)
    (hok : testsDrained cfg s a = true) : StopInv cfg t := by
  by_cases hstop : notStopping a = true
  · obtain ⟨new, hf⟩ := step_workFrame hs hstop
    exact h.work hf
  · cases step_cases hs with
    | stopBegin hidle => exact h.begin hrun hidle
    | stopper hst => exact h.stopper hst hok
    | _ => exact absurd rfl hstop

theorem reach_stopInv (h : Reach (step cfg) (fun s a => testsDrained cfg s a = true) {} s) :
    RunInv cfg s ∧ StopInv cfg s := by
  refine h.invariant (I := fun s => RunInv cfg s ∧ StopInv cfg s) ⟨.init, .init⟩ ?_
  rintro s a t ⟨hrun, hinv⟩ hok hs
  exact ⟨step_runInv hrun hs, step_stopInv hrun hinv hs hok⟩

end Invariant

/-! ## Nothing is lost -/

/-- How often `OpHandler` called the completion of `k` with an error. -/
def failedCount (s : State) (k : ℕ) : ℕ :=
  s.handLog.countP fun e => e.call = k && !e.outcome.isAccepted

/-- How often `RadosOperationAioOperate` accepted `k`. -/
def acceptedCount (s : State) (k : ℕ) : ℕ :=
  s.handLog.countP fun e => e.call = k && e.outcome.isAccepted

section Lost

variable {cfg : Config} {s : State}

theorem failed_add_accepted (k : ℕ) :
    failedCount s k + acceptedCount s k = (s.handLog.map (·.call)).count k := by
  unfold failedCount acceptedCount
  rw [List.count_eq_countP, List.countP_map]
  induction s.handLog with
  | nil => rfl
  | cons e log ih =>
    simp only [List.countP_cons, Function.comp_apply, beq_iff_eq, Bool.and_eq_true,
      decide_eq_true_eq, Bool.not_eq_true']
    cases hacc : e.outcome.isAccepted <;> by_cases hk : e.call = k <;> simp [hk] <;> omega

/-- A request ends on its own lane. -/
theorem count_handed (h : RunInv cfg s) {k : ℕ} {l : LaneId} (hl : (k, l) ∈ s.enqLog) :
    (s.handLog.map (·.call)).count k = (handedOn s l).count k := by
  unfold handedOn
  rw [List.count_eq_countP, List.count_eq_countP, List.countP_map, List.countP_map,
    List.countP_filter]
  apply List.countP_congr
  intro e he
  simp only [Function.comp_apply, beq_iff_eq, Bool.and_eq_true, decide_eq_true_eq]
  refine ⟨fun hk => ⟨hk, ?_⟩, And.left⟩
  subst hk
  exact lane_unique h.calls (handed_enqueued h.log he) hl

/-- **No request is lost at shutdown**: in every run in which the flag never comes between a
handler's last drain and its test while an accepted request is in the queue, when `Stop` has
returned, each request `Queue` had returned 0 for has ended exactly once, with its completion
called by the handler or with its acceptance. -/
theorem no_request_lost
    (h : Reach (step cfg) (fun s a => testsDrained cfg s a = true) {} s) (hdone : s.stop = .done)
    {k : ℕ} (hk : k ∈ s.stopSet) : failedCount s k + acceptedCount s k = 1 := by
  obtain ⟨hrun, hinv⟩ := reach_stopInv h
  obtain ⟨c, hc, hret⟩ := hinv.returned k hk
  obtain ⟨l, hl⟩ : ∃ l, (k, l) ∈ s.enqLog := by
    simpa [CallOk, hret] using hrun.calls.call hc
  have hlt : l.2 < cfg.threadNum := by
    obtain ⟨d, -, -, -, hidx⟩ := hrun.calls.entry hl
    rw [hidx]
    exact Nat.mod_lt _ cfg.threadNum_pos
  -- the handler of its lane has been joined
  have hexited : (s.lane l).pc = .exited := by
    rcases hinv.covered k hk l hl with hpend | hall
    · simp [hdone, pending] at hpend
    · exact hall l.2 hlt
  have hitems := hinv.drained hlt (hinv.exited hexited) (.inr hexited) k hk
  -- so it is neither in the queue nor in the handler's hand
  obtain ⟨honce, -⟩ := dequeued_once hrun hl
  have hcurrent : current (s.lane l) = [] := by simp [current, hexited]
  rw [List.count_eq_zero_of_not_mem hitems, dequeuedOn, hcurrent, List.append_nil] at honce
  rw [failed_add_accepted, count_handed hrun hl]
  exact honce

end Lost

/-- One request is drained before `Stop`. -/
theorem no_request_lost_one_request :
    ∃ s, Reach (step oneThread) (fun s a => testsDrained oneThread s a = true) {} s ∧
      s.stop = .done ∧ s.stopSet = [0] ∧ failedCount s 0 + acceptedCount s 0 = 1 := by
  obtain ⟨s, hs, hp⟩ := exists_reach_of_checked (step oneThread)
    (fun s a => testsDrained oneThread s a = true) (testsDrained oneThread) {}
    ([.call 0 [] :: List.replicate 6 (.producer 0 true), List.replicate 3 (.handler (0, 0)),
      [.getIoCtx (0, 0) some, .aio (0, 0) 0, .stopBegin, .stopper],
      List.replicate 2 (.handler (0, 0)), List.replicate 4 .stopper].flatten)
    (fun s => s.stop = .done && s.stopSet = [0]) (by decide) (fun _ _ h => h)
  simp only [Bool.and_eq_true, decide_eq_true_eq] at hp
  exact ⟨s, hs, hp.1, hp.2, no_request_lost hs hp.1 (by rw [hp.2]; exact List.mem_singleton_self 0)⟩

/-- `Queue` has returned 0, the flag goes up, the handler tests it and ends. -/
theorem request_lost :
    ¬ ∀ (cfg : Config) (s : State), Reach (step cfg) Free {} s → s.stop = .done →
      ∀ k ∈ s.stopSet, failedCount s k + acceptedCount s k = 1 := by
  intro hall
  obtain ⟨s, hs, hp⟩ := exists_reach_of_run (step oneThread) Free {}
    ([.call 0 [] :: List.replicate 6 (.producer 0 true), [.stopBegin, .stopper, .handler (0, 0)],
      List.replicate 4 .stopper].flatten)
    (fun s => s.stop = .done && s.stopSet = [0] && failedCount s 0 = 0 && acceptedCount s 0 = 0)
    (by decide) (fun _ _ _ => trivial)
  simp only [Bool.and_eq_true, decide_eq_true_eq] at hp
  obtain ⟨⟨⟨hdone, hset⟩, hfailed⟩, haccepted⟩ := hp
  have hone := hall oneThread s hs hdone 0 (by rw [hset]; exact List.mem_singleton_self 0)
  omega

end GcAdaptor.WorkerStop
