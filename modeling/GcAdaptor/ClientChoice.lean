/-
Which librados client a request goes through.

`GetIoCtxWithClient` takes the next number of one counter that all workers share and
masks it with `clientNum - 1`, so the clients are handed out in turn to the requests
in the order in which their handlers get the proxy's mutex. The object id plays no
part, and neither does the pool, except that a pool has one context per client.

`CtxInv` is the invariant: entry `n` of `ctxLog` has client `n % clientNum`, and a
context that was handed out is the one the pool map holds for that pool and client.
-/
import GcAdaptor.WorkerOrder

set_option autoImplicit false

namespace GcAdaptor.ClientChoice

open GcAdaptor.Cxx GcAdaptor.Interleave GcAdaptor.LinkedQueue GcAdaptor.RadosWorker
open GcAdaptor.WorkerOrder

/-! ## `GetIoCtxWithClient` -/

section GetIoCtx

variable {cfg : Config} {s : State} {poolId p : ℤ} {created : ℕ → Option ℕ}

/-- The context a pool map holds for a pool and a client. -/
def ctxOf (pMap : List (ℤ × List (ℕ × ℕ))) (poolId : ℤ) (client : ℕ) : Option ℕ :=
  (pMap.lookup poolId).bind (·.lookup client)

theorem client_eq : (s.getIoCtxWithClient cfg poolId created).1 = s.count % cfg.clientNum := by
  have hmask : (s.getIoCtxWithClient cfg poolId created).1 = s.count &&& (cfg.clientNum - 1) := by
    unfold State.getIoCtxWithClient
    simp only
    split
    · rfl
    · split <;> rfl
  rw [hmask, Config.clientNum, Nat.and_two_pow_sub_one_eq_mod]

/-- Once a pool is in the map its contexts stay. -/
theorem ctxOf_kept {client ioctx : ℕ} (h : ctxOf s.pMap p client = some ioctx) :
    ctxOf (s.getIoCtxWithClient cfg poolId created).2.2 p client = some ioctx := by
  unfold State.getIoCtxWithClient
  simp only
  split
  · exact h
  · rename_i hnone
    split
    · exact h
    · -- the pool that is added was not there
      have hne : p ≠ poolId := by
        rintro rfl
        simp [ctxOf, hnone] at h
      rw [ctxOf, lookup_mapSet, if_neg hne]
      exact h

/-- The context handed out is in the map. -/
theorem ctxOf_handed {ioctx : ℕ}
    (h : (s.getIoCtxWithClient cfg poolId created).2.1 = some ioctx) :
    ctxOf (s.getIoCtxWithClient cfg poolId created).2.2 poolId
      (s.getIoCtxWithClient cfg poolId created).1 = some ioctx := by
  unfold State.getIoCtxWithClient at h ⊢
  cases hpool : s.pMap.lookup poolId with
  | some tMap =>
    simp only [hpool] at h ⊢
    rw [ctxOf, hpool]
    exact h
  | none =>
    simp only [hpool] at h ⊢
    split at h
    · simp at h
    · rename_i tMap htMap
      simp only
      rw [ctxOf, lookup_mapSet, if_pos rfl]
      exact h

end GetIoCtx

/-! ## The invariant -/

/-- The client and the context a request was submitted through. -/
def submission : Outcome → Option (ℕ × ℕ)
  | .noIoCtx => none
  | .refused client ioctx _ | .accepted client ioctx => some (client, ioctx)

/-- The pool of a request. -/
def poolOf (s : State) (k : ℕ) : Option ℤ := (s.calls[k]?).map (·.poolId)

structure CtxInv (cfg : Config) (s : State) : Prop where
  count : s.count = s.ctxLog.length % 2 ^ 32
  /-- the clients take turns -/
  client : ∀ {n e}, s.ctxLog[n]? = some e → e.client = n % cfg.clientNum
  /-- a context handed out is the pool's context of that client -/
  ioctx : ∀ {e i}, e ∈ s.ctxLog → e.ioctx = some i →
    ∃ p, poolOf s e.call = some p ∧ ctxOf s.pMap p e.client = some i
  /-- a request with an entry is being submitted or has ended -/
  past : ∀ {e}, e ∈ s.ctxLog →
    (∃ f ∈ s.handLog, f.call = e.call) ∨ ∃ l c i, (s.lane l).pc = .aio e.call c i
  nodup : (s.ctxLog.map (·.call)).Nodup
  aio : ∀ {l k c i}, (s.lane l).pc = .aio k c i → ⟨k, c, some i⟩ ∈ s.ctxLog
  hand : ∀ {e c i}, e ∈ s.handLog → submission e.outcome = some (c, i) →
    ⟨e.call, c, some i⟩ ∈ s.ctxLog

/-- A step that neither gets a context nor submits. -/
structure CtxFrame (s t : State) : Prop where
  count : t.count = s.count
  pMap : t.pMap = s.pMap
  ctxLog : t.ctxLog = s.ctxLog
  handLog : t.handLog = s.handLog
  pool : ∀ {k p}, poolOf s k = some p → poolOf t k = some p
  aio : ∀ {l k c i}, (t.lane l).pc = .aio k c i ↔ (s.lane l).pc = .aio k c i

section Steps

variable {cfg : Config} {s t : State} {a : Act} {k : ℕ} {l : LaneId}

theorem CtxInv.init : CtxInv cfg {} :=
  ⟨rfl, by simp, by simp, by simp, List.nodup_nil, by simp, by simp⟩

theorem CtxInv.congr (h : CtxInv cfg s) (hf : CtxFrame s t) : CtxInv cfg t := by
  refine ⟨?_, ?_, ?_, ?_, ?_, ?_, ?_⟩
  · rw [hf.count, hf.ctxLog]
    exact h.count
  · rw [hf.ctxLog]
    exact h.client
  · intro e i he hi
    rw [hf.ctxLog] at he
    rw [hf.pMap]
    obtain ⟨p, hp, hctx⟩ := h.ioctx he hi
    exact ⟨p, hf.pool hp, hctx⟩
  · intro e he
    rw [hf.ctxLog] at he
    rw [hf.handLog]
    exact (h.past he).imp_right fun ⟨l, c, i, hpc⟩ => ⟨l, c, i, hf.aio.mpr hpc⟩
  · rw [hf.ctxLog]
    exact h.nodup
  · intro l k c i hpc
    rw [hf.ctxLog]
    exact h.aio (hf.aio.mp hpc)
  · intro e c i he
    rw [hf.ctxLog]
    rw [hf.handLog] at he
    exact h.hand he

theorem poolOf_set {c : Call} {pc : CallPc} (hk : s.calls[k]? = some c)
    (hcalls : t.calls = s.calls.set k { c with pc := pc }) {j : ℕ} {p : ℤ}
    (hj : poolOf s j = some p) : poolOf t j = some p := by
  unfold poolOf at hj ⊢
  rw [hcalls, List.getElem?_set]
  split_ifs with hkj hlt
  · rw [← hkj, hk] at hj
    exact hj
  · rw [← hkj, hk] at hj
    exact absurd (List.getElem?_eq_some_iff.mp hk).1 hlt
  · exact hj

theorem poolOf_call {c : Call} (hk : s.calls[k]? = some c) : poolOf s k = some c.poolId := by
  rw [poolOf, hk]
  rfl

/-- A lane whose handler stays out of the submission. -/
theorem aio_update {x : Lane} (hlane : t.lane = Function.update s.lane l x)
    (hx : ∀ k c i, x.pc = .aio k c i ↔ (s.lane l).pc = .aio k c i) {m : LaneId} {k c i : ℕ} :
    (t.lane m).pc = .aio k c i ↔ (s.lane m).pc = .aio k c i := by
  rw [hlane]
  by_cases hm : m = l
  · subst hm
    rw [Function.update_self]
    exact hx k c i
  · rw [Function.update_of_ne hm]

theorem aio_of_pcKept {x y : Lane} (h : PcKept x y) (k c i : ℕ) :
    x.pc = .aio k c i ↔ y.pc = .aio k c i := by
  rcases h with h | ⟨hy, hx⟩
  · rw [h]
  · simp [hx, hy]

theorem aio_of_handler {x y : Lane} {b : Bool} (h : x.handler b = some y) (k c i : ℕ) :
    y.pc = .aio k c i ↔ x.pc = .aio k c i := by
  unfold Lane.handler at h
  cases hpc : x.pc with
  | test =>
    simp only [hpc, Option.some.injEq] at h
    subst h
    cases b <;> simp
  | fetchSub =>
    simp only [hpc, Option.some.injEq] at h
    subst h
    by_cases hc : x.count < 1 <;> simp [hc]
  | semCheck =>
    simp only [hpc] at h
    split at h <;> obtain rfl := Option.some.inj h <;> simp
  | dequeue =>
    simp only [hpc] at h
    split at h <;> obtain rfl := Option.some.inj h <;> simp
  | _ => simp [hpc] at h

theorem step_ctxFrame (hs : step cfg s a = some t) :
    CtxFrame s t ∨ (∃ l created, a = .getIoCtx l created) ∨ ∃ l ret, a = .aio l ret := by
  cases step_cases hs with
  | call =>
    refine .inl ⟨rfl, rfl, rfl, rfl, fun {k p} hp => ?_, .rfl⟩
    obtain ⟨c, hc, hpool⟩ := Option.map_eq_some_iff.mp hp
    exact Option.map_eq_some_iff.mpr
      ⟨c, getElem?_of_isPrefix (List.prefix_append _ _) hc, hpool⟩
  | early hk => exact .inl ⟨rfl, rfl, rfl, rfl, poolOf_set hk rfl, .rfl⟩
  | create hk => exact .inl ⟨rfl, rfl, rfl, rfl, poolOf_set hk rfl, .rfl⟩
  | enqueue hk =>
    exact .inl ⟨rfl, rfl, rfl, rfl, poolOf_set hk rfl, aio_update rfl (by simp)⟩
  | fetchAdd hk =>
    exact .inl ⟨rfl, rfl, rfl, rfl, poolOf_set hk rfl, aio_update rfl (by simp)⟩
  | semPost hk =>
    exact .inl ⟨rfl, rfl, rfl, rfl, poolOf_set hk rfl, aio_update rfl (by simp)⟩
  | notify hk =>
    exact .inl ⟨rfl, rfl, rfl, rfl, poolOf_set hk rfl,
      aio_update rfl (aio_of_pcKept (notify_pcKept _))⟩
  | handler _ hx =>
    exact .inl ⟨rfl, rfl, rfl, rfl, id, aio_update rfl (aio_of_handler hx)⟩
  | wake hpc =>
    exact .inl ⟨rfl, rfl, rfl, rfl, id,
      aio_update rfl (aio_of_pcKept (.inr ⟨hpc, rfl⟩))⟩
  | getIoCtx => exact .inr (.inl ⟨_, _, rfl⟩)
  | aio => exact .inr (.inr ⟨_, _, rfl⟩)
  | stopBegin => exact .inl ⟨rfl, rfl, rfl, rfl, id, .rfl⟩
  | stopper hst =>
    have hf := stopper_frame hst
    refine .inl ⟨hf.proxy.1, hf.proxy.2, hf.ctxLog, hf.handLog, fun {k p} hp => ?_,
      aio_of_pcKept (hf.pc _) _ _ _⟩
    unfold poolOf at hp ⊢
    rw [hf.calls]
    exact hp

theorem mem_current (hrun : RunInv cfg s) (h : k ∈ current (s.lane l)) : (k, l) ∈ s.enqLog := by
  rw [← mem_enqueuedOn, hrun.log l, held]
  exact List.mem_append_right _ (List.mem_append_left _ h)

/-- A request asks for its context once. -/
theorem CtxInv.fresh (hrun : RunInv cfg s) (h : CtxInv cfg s) (hpc : (s.lane l).pc = .getIoCtx k) :
    k ∉ s.ctxLog.map (·.call) := by
  intro hmem
  obtain ⟨e, he, rfl⟩ := List.mem_map.mp hmem
  have hcur : current (s.lane l) = [e.call] := by simp [current, hpc]
  have hl : (e.call, l) ∈ s.enqLog := mem_current hrun (by simp [hcur])
  rcases h.past he with ⟨f, hf, hcall⟩ | ⟨m, c, i, hm⟩
  · -- it has ended on this lane, and is in the handler's hand again
    have hlane : f.lane = l := by
      have hfe := handed_enqueued hrun.log hf
      rw [hcall] at hfe
      exact lane_unique hrun.calls hfe hl
    have hhanded : e.call ∈ handedOn s l :=
      List.mem_map.mpr ⟨f, List.mem_filter.mpr ⟨hf, by simp [hlane]⟩, hcall⟩
    have hpos := List.count_pos_iff.mpr hhanded
    obtain ⟨honce, -⟩ := dequeued_once hrun hl
    rw [dequeuedOn, hcur, List.count_append, List.count_singleton_self] at honce
    omega
  · -- it is being submitted by another handler
    have hme : (e.call, m) ∈ s.enqLog := mem_current hrun (by simp [current, hm])
    rw [lane_unique hrun.calls hme hl, hpc] at hm
    simp at hm

theorem clientNum_dvd (cfg : Config) : cfg.clientNum ∣ 2 ^ 32 :=
  Nat.pow_dvd_pow 2 cfg.clientBits_lt.le

theorem CtxInv.getIoCtx {c : Call} {created : ℕ → Option ℕ} (hrun : RunInv cfg s)
    (h : CtxInv cfg s) (hpc : (s.lane l).pc = .getIoCtx k) (hk : s.calls[k]? = some c) :
    CtxInv cfg (s.getIoCtx cfg l k c.poolId created) := by
  have hfresh := h.fresh hrun hpc
  obtain ⟨pc, ended, heq, hcase⟩ := getIoCtx_cases cfg s l k c.poolId created
  rw [heq]
  have hother : ∀ {m k' c' i}, (s.lane m).pc = .aio k' c' i → m ≠ l := by
    rintro m k' c' i hm rfl
    rw [hpc] at hm
    simp at hm
  refine ⟨?_, ?_, ?_, ?_, ?_, ?_, ?_⟩
  · rw [h.count, List.length_append, List.length_singleton]
    exact Nat.mod_add_mod _ _ _
  -- the counter wraps at 32 bits, which `clientNum` divides
  · intro n e he
    simp only [List.getElem?_append] at he
    split_ifs at he with hn
    · exact h.client he
    · obtain ⟨hzero, rfl⟩ : n - s.ctxLog.length = 0 ∧ _ = e := by
        simpa [List.getElem?_singleton] using he
      simp only [client_eq, h.count]
      rw [Nat.mod_mod_of_dvd _ (clientNum_dvd cfg), show n = s.ctxLog.length by omega]
  · intro e i he hi
    rcases List.mem_append.mp he with he | he
    · obtain ⟨p, hp, hctx⟩ := h.ioctx he hi
      exact ⟨p, hp, ctxOf_kept hctx⟩
    · rw [List.mem_singleton.mp he] at hi ⊢
      exact ⟨c.poolId, poolOf_call hk, ctxOf_handed hi⟩
  · intro e he
    rcases List.mem_append.mp he with he | he
    · rcases h.past he with ⟨f, hf, hcall⟩ | ⟨m, c', i, hm⟩
      · exact .inl ⟨f, List.mem_append_left _ hf, hcall⟩
      · exact .inr ⟨m, c', i, by simp only [Function.update_of_ne (hother hm), hm]⟩
    · rw [List.mem_singleton.mp he]
      obtain ⟨-, rfl⟩ | ⟨ioctx, -, rfl, -⟩ := hcase
      · exact .inl ⟨_, List.mem_append_right _ (List.mem_singleton_self _), rfl⟩
      · exact .inr ⟨l, (s.getIoCtxWithClient cfg c.poolId created).1, ioctx,
          by simp only [Function.update_self]⟩
  · rw [List.map_append, List.nodup_append]
    refine ⟨h.nodup, by simp, ?_⟩
    rintro x hx y hy rfl
    obtain rfl : x = k := by simpa using hy
    exact hfresh hx
  · intro m k' c' i hm
    by_cases hml : m = l
    · subst hml
      simp only [Function.update_self] at hm
      obtain ⟨rfl, -⟩ | ⟨ioctx, hsome, rfl, -⟩ := hcase
      · simp at hm
      · obtain ⟨rfl, rfl, rfl⟩ := HandlerPc.aio.inj hm
        exact List.mem_append_right _ (by rw [hsome]; exact List.mem_singleton_self _)
    · simp only [Function.update_of_ne hml] at hm
      exact List.mem_append_left _ (h.aio hm)
  · intro e c' i he hsub
    rcases List.mem_append.mp he with he | he
    · exact List.mem_append_left _ (h.hand he hsub)
    · obtain ⟨-, rfl⟩ | ⟨ioctx, -, -, rfl⟩ := hcase
      · rw [List.mem_singleton.mp he] at hsub
        simp [submission] at hsub
      · simp at he

theorem CtxInv.submit {client ioctx : ℕ} {ret : ℤ} (h : CtxInv cfg s)
    (hpc : (s.lane l).pc = .aio k client ioctx) : CtxInv cfg (s.aio l k client ioctx ret) := by
  refine ⟨h.count, h.client, h.ioctx, ?_, h.nodup, ?_, ?_⟩
  · intro e he
    rcases h.past he with ⟨f, hf, hcall⟩ | ⟨m, c, i, hm⟩
    · exact .inl ⟨f, List.mem_append_left _ hf, hcall⟩
    · by_cases hml : m = l
      · subst hml
        obtain ⟨rfl, -, -⟩ := HandlerPc.aio.inj (hpc.symm.trans hm)
        exact .inl ⟨_, List.mem_append_right _ (List.mem_singleton_self _), rfl⟩
      · exact .inr ⟨m, c, i, by simp [State.aio, State.setLane, Function.update_of_ne hml, hm]⟩
  · intro m k' c i hm
    by_cases hml : m = l
    · subst hml
      simp [State.aio, State.setLane] at hm
    · simp only [State.aio, State.setLane, Function.update_of_ne hml] at hm
      exact h.aio hm
  · intro e c i he hsub
    rcases List.mem_append.mp he with he | he
    · exact h.hand he hsub
    · rw [List.mem_singleton.mp he] at hsub ⊢
      have heq : (client, ioctx) = (c, i) := by
        simp only at hsub
        split_ifs at hsub <;> exact Option.some.inj hsub
      obtain ⟨rfl, rfl⟩ := Prod.mk.inj heq
      exact h.aio hpc

theorem step_ctxInv (hrun : RunInv cfg s) (h : CtxInv cfg s) (hs : step cfg s a = some t) :
    CtxInv cfg t := by
  rcases step_ctxFrame hs with hf | ⟨l, created, rfl⟩ | ⟨l, ret, rfl⟩
  · exact h.congr hf
  · cases step_cases hs with
    | getIoCtx hpc hk => exact h.getIoCtx hrun hpc hk
  · cases step_cases hs with
    | aio hpc => exact h.submit hpc

theorem reach_ctxInv {ok : State → Act → Prop} (h : Reach (step cfg) ok {} s) : CtxInv cfg s := by
  have hboth : RunInv cfg s ∧ CtxInv cfg s := by
    refine h.invariant (I := fun s => RunInv cfg s ∧ CtxInv cfg s) ⟨.init, .init⟩ ?_
    rintro s a t ⟨hrun, hinv⟩ _ hs
    exact ⟨step_runInv hrun hs, step_ctxInv hrun hinv hs⟩
  exact hboth.2

end Steps

/-! ## The client of a submission -/

/-- **Clients in turn.** Two submitted requests have one call of `GetIoCtxWithClient` each; they
go through the same client just when the numbers of these calls agree modulo `clientNum`. For
one pool, the same client is the same context. -/
theorem submissions_take_turns {cfg : Config} {s : State} (h : Reach (step cfg) Free {} s)
    {e f : Handed} (he : e ∈ s.handLog) (hf : f ∈ s.handLog) {c i d j : ℕ}
    (hec : submission e.outcome = some (c, i)) (hfd : submission f.outcome = some (d, j)) :
    (s.ctxLog.map (·.call)).Nodup ∧
    ∃ m n, s.ctxLog[m]? = some ⟨e.call, c, some i⟩ ∧ s.ctxLog[n]? = some ⟨f.call, d, some j⟩ ∧
      (c = d ↔ m % cfg.clientNum = n % cfg.clientNum) ∧
      (poolOf s e.call = poolOf s f.call → c = d → i = j) := by
  have hinv := reach_ctxInv h
  have hem := hinv.hand he hec
  have hfm := hinv.hand hf hfd
  obtain ⟨m, hm⟩ := List.getElem?_of_mem hem
  obtain ⟨n, hn⟩ := List.getElem?_of_mem hfm
  have hc : c = m % cfg.clientNum := hinv.client hm
  have hd : d = n % cfg.clientNum := hinv.client hn
  refine ⟨hinv.nodup, m, n, hm, hn, by rw [hc, hd], ?_⟩
  intro hpool hcd
  obtain ⟨p, hp, hi⟩ := hinv.ioctx hem rfl
  obtain ⟨q, hq, hj⟩ := hinv.ioctx hfm rfl
  -- one pool and one client, so one entry of the pool map
  obtain rfl : p = q := by
    rw [hp, hq] at hpool
    exact Option.some.inj hpool
  subst hcd
  exact Option.some.inj (hi.symm.trans hj)

/-- One handler thread and two clients. -/
def twoClients : Config := ⟨1, Nat.one_pos, fun _ => 0, 1, by decide⟩

/-- Requests for one pool and object, queued one after the other and then submitted; the
clients' contexts are 10 and 11. -/
def submitAll (n : ℕ) : List Act :=
  [List.replicate n (.call 0 []), List.replicate 6 (.producer 0 true),
    (List.range (n - 1)).flatMap fun k => List.replicate 5 (.producer (k + 1) true),
    List.replicate 2 (.handler (0, 0)),
    (List.range n).flatMap fun _ =>
      [.handler (0, 0), .getIoCtx (0, 0) fun c => some (10 + c), .aio (0, 0) 0]].flatten

/-- Of three requests the first and the third share a client. -/
theorem submissions_take_turns_three_requests :
    ∃ s, Reach (step twoClients) Free {} s ∧ ∃ e ∈ s.handLog, ∃ f ∈ s.handLog, e.call = 0 ∧
      f.call = 2 ∧ submission e.outcome = some (0, 10) ∧ submission f.outcome = some (0, 10) ∧
      (s.ctxLog.map (·.call)).Nodup := by
  obtain ⟨s, hs, hp⟩ := exists_reach_of_run (step twoClients) Free {} (submitAll 3)
    (fun s => s.handLog = [⟨0, (0, 0), .accepted 0 10⟩, ⟨1, (0, 0), .accepted 1 11⟩,
      ⟨2, (0, 0), .accepted 0 10⟩]) (by decide) (fun _ _ _ => trivial)
  have hlog := of_decide_eq_true hp
  have he : ⟨0, (0, 0), .accepted 0 10⟩ ∈ s.handLog := by simp [hlog]
  have hf : ⟨2, (0, 0), .accepted 0 10⟩ ∈ s.handLog := by simp [hlog]
  exact ⟨s, hs, _, he, _, hf, rfl, rfl, rfl, rfl, (submissions_take_turns hs he hf rfl rfl).1⟩

/-- Of two requests for one object the second goes through the other client. -/
theorem submissions_change_client :
    ¬ ∀ (cfg : Config) (s : State), Reach (step cfg) Free {} s →
      ∀ e ∈ s.handLog, ∀ f ∈ s.handLog, ∀ poolId objectId,
        isFor s poolId objectId e.call = true → isFor s poolId objectId f.call = true →
        ∀ c i d j, submission e.outcome = some (c, i) → submission f.outcome = some (d, j) →
          c = d ∧ i = j := by
  intro hall
  obtain ⟨s, hs, hp⟩ := exists_reach_of_run (step twoClients) Free {} (submitAll 2)
    (fun s => s.handLog = [⟨0, (0, 0), .accepted 0 10⟩, ⟨1, (0, 0), .accepted 1 11⟩] &&
      isFor s 0 [] 0 && isFor s 0 [] 1) (by decide) (fun _ _ _ => trivial)
  simp only [Bool.and_eq_true, decide_eq_true_eq] at hp
  obtain ⟨⟨hlog, hzero⟩, hone⟩ := hp
  have hsame := hall twoClients s hs ⟨0, (0, 0), .accepted 0 10⟩ (by simp [hlog])
    ⟨1, (0, 0), .accepted 1 11⟩ (by simp [hlog]) 0 [] hzero hone 0 10 1 11 rfl rfl
  exact absurd hsame.1 (by decide)

end GcAdaptor.ClientChoice
