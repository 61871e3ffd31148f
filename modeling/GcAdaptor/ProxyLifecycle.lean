/-
Starting and stopping the proxy: `CephProxyInit` and `CephProxyShutdown`
(`ceph_proxy/CephProxyInterface.cc`), `Init` and `Shutdown` (`ceph_proxy/CephProxy.cc`), and the io
contexts that are made between the two.

`GetProxy` keeps one instance, which an `Init` that fails does not take back: the next
`CephProxyInit` finds it as it was left. `Init` writes over the members without a look at them, and
`Shutdown` closes what the members say. The calls come one after another here; which number of
clients `MemberInit` settles on is in `CephProxy`, what callers do to the table at the same time in
`IoCtxTable`.
-/
import GcAdaptor.Interleave
import GcAdaptor.IoCtxTable
import GcAdaptor.Ledger
import Mathlib.Data.List.Range

set_option autoImplicit false

namespace GcAdaptor.ProxyLifecycle

open GcAdaptor.Interleave GcAdaptor.Ledger
open GcAdaptor.IoCtxTable (Key)

/-! ## What the proxy holds -/

/-- An io context, and the client it was made in. -/
structure Ctx where
  number : ℕ
  client : ℕ
  deriving DecidableEq

inductive Res
  | client (n : ℕ)
  | ioctx (x : Ctx)
  | msgr (n : ℕ)
  | worker (n : ℕ)
  deriving DecidableEq

/-- A context goes before its client. -/
def Res.owner : Res → Option Res
  | .ioctx x => some (.client x.client)
  | _ => none

def Res.number : Res → ℕ
  | .ioctx x => x.number
  | .client n | .msgr n | .worker n => n

inductive CephProxyState
  | initing
  | active
  | down

/-- `CephProxy`. A pointer may be null, or to something that is closed. `handed` is whether
`CephProxyInit` has returned the instance to a caller. -/
structure Proxy where
  radosClient : Option ℕ := none
  ioClientVec : List ℕ := []
  ptable : List (Key × Ctx) := []
  pMap : List (ℤ × List Ctx) := []
  msgrHandler : Option ℕ := none
  worker : Option ℕ := none
  state : CephProxyState := .down
  handed : Bool := false

/-- Numbers are given out in the order in which things are opened. -/
structure World where
  books : Books Res := {}
  next : ℕ := 0

def World.opened (rs : List Res) (w : World) : World where
  books := w.books.opened rs
  next := w.next + rs.length

def World.use (r : Res) (w : World) : World := { w with books := w.books.use r }

def World.closeAll (rs : List Res) (w : World) : World :=
  { w with books := w.books.closeAll Res.owner rs }

structure State where
  proxy : Option Proxy := none
  world : World := {}

/-- `GetProxy`, whose `new` succeeds. -/
def State.getProxy (s : State) : Proxy := s.proxy.getD {}

/-! ## `Init` -/

/-- `RadosClientInit(&radosClient)`: where it fails early the pointer stays as it was, later it is
set to null. -/
inductive MainClient
  | untouched
  | cleared
  | up

inductive Msgr
  | noMemory
  | notStarted
  | started
  deriving DecidableEq

/-- What the calls in `Init` come to: `clients` calls of `RadosClientInit` succeed before one
fails, `cores` is false where `ParseCoreId` is called and fails. -/
structure Outcome where
  main : MainClient
  clients : ℕ
  msgr : Msgr
  cores : Bool
  worker : Bool

/-- `MemberInit`: `ptable.Init` empties the tables, it does not release. -/
def memberInit (p : Proxy) : Proxy := { p with state := .initing, ptable := [] }

/-- The loop of `RadosInit`, with `left` turns to go and `clients` of them to succeed. -/
def clientLoop : ℕ → ℕ → Proxy → World → Bool × Proxy × World
  | 0, _, p, w => (true, p, w)
  | _ + 1, 0, p, w => (false, p, w)
  | left + 1, clients + 1, p, w =>
    clientLoop left clients { p with ioClientVec := p.ioClientVec ++ [w.next] }
      (w.opened [.client w.next])

def radosInit (clientNum : ℕ) (o : Outcome) (p : Proxy) (w : World) : Bool × Proxy × World :=
  match o.main with
  | .untouched => (false, p, w)
  | .cleared => (false, { p with radosClient := none }, w)
  | .up =>
    clientLoop clientNum o.clients { p with radosClient := some w.next }
      (w.opened [.client w.next])

/-- `RadosClientShutdown(radosClient)` -/
def shutdownMain (p : Proxy) (w : World) : World :=
  w.closeAll (p.radosClient.toList.map .client)

/-- `InitProxyMsgr` and what `Init` does where it fails. A messenger that does not start is not
deleted. -/
def initProxyMsgr (o : Outcome) (p : Proxy) (w : World) : Bool × Proxy × World :=
  match o.msgr with
  | .noMemory => (false, p, shutdownMain p w)
  | .notStarted => (false, p, shutdownMain p (w.opened [.msgr w.next]))
  | .started => (true, { p with msgrHandler := some w.next }, w.opened [.msgr w.next])

def startWorker (o : Outcome) (p : Proxy) (w : World) : Proxy × World :=
  if !o.cores then (p, w)
  else if !o.worker then ({ p with worker := none }, w)
  else
    ({ p with worker := some w.next, state := .active, handed := true },
      w.opened [.worker w.next])

def init (clientNum : ℕ) (o : Outcome) (p : Proxy) (w : World) : Proxy × World :=
  match radosInit clientNum o (memberInit p) w with
  | (false, p, w) => (p, w)
  | (true, p, w) =>
    match initProxyMsgr o p w with
    | (false, p, w) => (p, w)
    | (true, p, w) => startWorker o p w

/-! ## Io contexts -/

/-- `GetIoCtx` and `GetIoCtx2`; `ok` is whether the context can be created. -/
def getIoCtx (key : Key) (ok : Bool) (p : Proxy) (w : World) : Proxy × World :=
  match p.ptable.lookup key with
  | some _ => (p, w)
  | none =>
    match p.radosClient with
    | none => (p, { w with books := { w.books with fault := true } })
    | some c =>
      let w := w.use (.client c)
      let x : Ctx := { number := w.next, client := c }
      if ok then ({ p with ptable := p.ptable ++ [(key, x)] }, w.opened [.ioctx x]) else (p, w)

/-- The loop over the clients, of which `made` contexts can be created. -/
def createLoop : ℕ → List ℕ → List Ctx → World → Option (List Ctx) × World
  | _, [], tMap, w => (some tMap, w)
  | 0, c :: _, _, w => (none, w.use (.client c))
  | made + 1, c :: rest, tMap, w =>
    let x : Ctx := { number := w.next, client := c }
    createLoop made rest (tMap ++ [x]) ((w.use (.client c)).opened [.ioctx x])

/-- `GetIoCtxWithClient`: what is in `tMap` when a creation fails is dropped with it. -/
def getIoCtxWithClient (poolId : ℤ) (made : ℕ) (p : Proxy) (w : World) : Proxy × World :=
  match p.pMap.lookup poolId with
  | some _ => (p, w)
  | none =>
    match createLoop made p.ioClientVec [] w with
    | (none, w) => (p, w)
    | (some tMap, w) => ({ p with pMap := p.pMap ++ [(poolId, tMap)] }, w)

/-! ## `Shutdown` -/

def shutdown (p : Proxy) (w : World) : World :=
  let w := w.closeAll (p.worker.toList.map .worker)
  let w := w.closeAll (p.ptable.map fun e => .ioctx e.2)
  let w := w.closeAll (p.msgrHandler.toList.map .msgr)
  let w := w.closeAll ((p.pMap.flatMap (·.2)).map .ioctx)
  let w := shutdownMain p w
  w.closeAll (p.ioClientVec.map .client)

inductive Label
  | init (clientNum : ℕ) (o : Outcome)
  | getIoCtx (key : Key) (ok : Bool)
  | getIoCtxWithClient (poolId : ℤ) (made : ℕ)
  | shutdown

/-- The calls of those who have the handle a successful `CephProxyInit` returned, and of
`CephProxyInit`. -/
def step (s : State) : Label → Option State
  | .init clientNum o =>
    let (p, w) := init clientNum o s.getProxy s.world
    some { proxy := some p, world := w }
  | .getIoCtx key ok =>
    if s.getProxy.handed then
      let (p, w) := getIoCtx key ok s.getProxy s.world
      some { proxy := some p, world := w }
    else none
  | .getIoCtxWithClient poolId made =>
    if s.getProxy.handed then
      let (p, w) := getIoCtxWithClient poolId made s.getProxy s.world
      some { proxy := some p, world := w }
    else none
  | .shutdown =>
    if s.getProxy.handed then some { proxy := none, world := shutdown s.getProxy s.world }
    else none

/-! ## What should hold -/

def Proxy.ctxs (p : Proxy) : List Ctx := p.ptable.map (·.2) ++ p.pMap.flatMap (·.2)

def Proxy.clients (p : Proxy) : List ℕ := p.radosClient.toList ++ p.ioClientVec

/-- What the members say, in the order in which `Shutdown` closes it. -/
def Proxy.held (p : Proxy) : List Res :=
  p.worker.toList.map .worker ++ p.ptable.map (fun e => .ioctx e.2) ++
    p.msgrHandler.toList.map .msgr ++ (p.pMap.flatMap (·.2)).map .ioctx ++
    p.clients.map .client

/-- Nothing is used or closed that is not open, or before what rests on it, and what is open is
what the instance holds. -/
def Tidy (s : State) : Prop :=
  s.world.books.fault = false ∧ ∀ r ∈ s.world.books.live, ∃ p, s.proxy = some p ∧ r ∈ p.held

/-- `radosClient` is a client that is open. -/
def MainLive (p : Proxy) (w : World) : Prop :=
  ∃ c, p.radosClient = some c ∧ .client c ∈ w.books.live

/-- An `Init` that finds no client it writes over, and no context it forgets, and whose messenger
starts if it comes to that; a table of contexts that is made for all clients or for none. -/
def Unspoilt (s : State) : Label → Prop
  | .init clientNum o =>
    s.getProxy.ptable = [] ∧
      match o.main with
      | .untouched => True
      | .cleared => ¬ MainLive s.getProxy s.world
      | .up =>
        ¬ MainLive s.getProxy s.world ∧ (o.clients < clientNum ∨ o.msgr ≠ .notStarted)
  | .getIoCtxWithClient poolId made =>
    (s.getProxy.pMap.lookup poolId).isSome ∨ made = 0 ∨ s.getProxy.ioClientVec.length ≤ made
  | .getIoCtx _ _ | .shutdown => True

/-! ## The books under the functions -/

section Books

variable {p p' : Proxy} {w : World} {r : Res} {rs rs' : List Res} {s t : State} {a : Label}
  {o : Outcome} {clientNum : ℕ}

/-- `r` is what one of the members says. -/
def Proxy.Owns (p : Proxy) : Res → Prop
  | .client n => n ∈ p.clients
  | .ioctx x => x ∈ p.ctxs
  | .msgr n => p.msgrHandler = some n
  | .worker n => p.worker = some n

theorem mem_held : r ∈ p.held ↔ p.Owns r := by
  cases r <;> simp [Proxy.held, Proxy.Owns, Proxy.ctxs, eq_comm]

/-- Only contexts rest on something. -/
theorem ioctx_of_owner {r' : Res} (h : r'.owner = some r) :
    ∃ x, r' = .ioctx x ∧ r = .client x.client := by
  cases r' with
  | ioctx x => exact ⟨x, rfl, (Option.some.inj h).symm⟩
  | client n => exact nomatch h
  | msgr n => exact nomatch h
  | worker n => exact nomatch h

theorem mem_closeAll : r ∈ (w.closeAll rs).books.live ↔ r ∈ w.books.live ∧ r ∉ rs :=
  Books.mem_closeAll

theorem closeAll_append : w.closeAll (rs ++ rs') = (w.closeAll rs).closeAll rs' := by
  simp only [World.closeAll, Books.closeAll_append]

theorem shutdown_eq : shutdown p w = w.closeAll p.held := by
  simp only [shutdown, shutdownMain, Proxy.held, Proxy.clients, List.map_append, closeAll_append]

/-- `r` is open and nobody's, and will not be given out again. -/
def Lost (r : Res) (p : Proxy) (w : World) : Prop :=
  r ∈ w.books.live ∧ r ∉ p.held ∧ r.number < w.next

def Spoilt (p : Proxy) (w : World) : Prop := w.books.fault = true ∨ ∃ r, Lost r p w

/-- The members change to what they said before, or to what is new. -/
theorem Spoilt.opened (h : Spoilt p w) (rs : List Res)
    (howns : ∀ r, p'.Owns r → p.Owns r ∨ w.next ≤ r.number) : Spoilt p' (w.opened rs) := by
  rcases h with hfault | ⟨r, hlive, hnot, hnum⟩
  · exact .inl hfault
  · refine .inr ⟨r, Books.mem_opened.mpr (.inl hlive), fun hr => ?_, ?_⟩
    · rcases howns r (mem_held.mp hr) with hr | hr
      · exact hnot (mem_held.mpr hr)
      · omega
    · exact Nat.lt_add_right _ hnum

theorem opened_nil : w.opened [] = w := by
  simp [World.opened, Books.opened]

theorem Spoilt.members (h : Spoilt p w) (howns : ∀ r, p'.Owns r → p.Owns r) : Spoilt p' w := by
  rw [← opened_nil (w := w)]
  exact h.opened [] fun r hr => .inl (howns r hr)

theorem Spoilt.use (h : Spoilt p w) (r : Res) : Spoilt p (w.use r) := by
  rcases h with hfault | hlost
  · exact .inl (Books.fault_of_fault_use hfault)
  · exact .inr hlost

theorem Spoilt.closeAll (h : Spoilt p w) (hrs : ∀ r ∈ rs, r ∈ p.held) :
    Spoilt p (w.closeAll rs) := by
  rcases h with hfault | ⟨r, hlive, hnot, hnum⟩
  · exact .inl (Books.fault_of_fault_closeAll hfault)
  · exact .inr ⟨r, mem_closeAll.mpr ⟨hlive, fun hr => hnot (hrs r hr)⟩, hnot, hnum⟩

theorem Spoilt.shutdownMain (h : Spoilt p w) : Spoilt p (shutdownMain p w) := by
  refine h.closeAll fun r hr => mem_held.mpr ?_
  obtain ⟨c, hc, rfl⟩ := List.mem_map.mp hr
  exact List.mem_append_left _ hc

theorem Spoilt.clientLoop {left clients : ℕ} (h : Spoilt p w) :
    Spoilt (clientLoop left clients p w).2.1 (clientLoop left clients p w).2.2 := by
  induction left generalizing clients p w with
  | zero => exact h
  | succ left ih =>
    cases clients with
    | zero => exact h
    | succ clients =>
      refine ih (h.opened _ fun r hr => ?_)
      cases r with
      | client n =>
        simp only [Proxy.Owns, Proxy.clients, List.mem_append, List.mem_singleton] at hr ⊢
        rcases hr with hr | hr | rfl
        · exact .inl (.inl hr)
        · exact .inl (.inr hr)
        · exact .inr le_rfl
      | ioctx x => exact .inl hr
      | msgr n => exact .inl hr
      | worker n => exact .inl hr

theorem Spoilt.memberInit (h : Spoilt p w) : Spoilt (memberInit p) w := by
  refine h.members fun r hr => ?_
  cases r with
  | client n => exact hr
  | ioctx x => exact List.mem_append_right _ hr
  | msgr n => exact hr
  | worker n => exact hr

theorem Spoilt.radosInit (h : Spoilt p w) :
    Spoilt (radosInit clientNum o p w).2.1 (radosInit clientNum o p w).2.2 := by
  unfold ProxyLifecycle.radosInit
  cases o.main with
  | untouched => exact h
  | cleared =>
    refine h.members fun r hr => ?_
    cases r with
    | client n => exact List.mem_append_right _ hr
    | ioctx x => exact hr
    | msgr n => exact hr
    | worker n => exact hr
  | up =>
    refine Spoilt.clientLoop (h.opened _ fun r hr => ?_)
    cases r with
    | client n =>
      rcases List.mem_cons.mp hr with rfl | hr
      · exact .inr le_rfl
      · exact .inl (List.mem_append_right _ hr)
    | ioctx x => exact .inl hr
    | msgr n => exact .inl hr
    | worker n => exact .inl hr

theorem Spoilt.initProxyMsgr (h : Spoilt p w) :
    Spoilt (initProxyMsgr o p w).2.1 (initProxyMsgr o p w).2.2 := by
  unfold ProxyLifecycle.initProxyMsgr
  cases o.msgr with
  | noMemory => exact h.shutdownMain
  | notStarted => exact (h.opened _ fun r hr => .inl hr).shutdownMain
  | started =>
    refine h.opened _ fun r hr => ?_
    cases r with
    | client n => exact .inl hr
    | ioctx x => exact .inl hr
    | msgr n => exact .inr (Option.some.inj hr).le
    | worker n => exact .inl hr

theorem Spoilt.startWorker (h : Spoilt p w) :
    Spoilt (startWorker o p w).1 (startWorker o p w).2 := by
  unfold ProxyLifecycle.startWorker
  split_ifs
  · exact h
  · refine h.members fun r hr => ?_
    cases r with
    | client n => exact hr
    | ioctx x => exact hr
    | msgr n => exact hr
    | worker n => exact nomatch hr
  · refine h.opened _ fun r hr => ?_
    cases r with
    | client n => exact .inl hr
    | ioctx x => exact .inl hr
    | msgr n => exact .inl hr
    | worker n => exact .inr (Option.some.inj hr).le

/-- `Init` in its three parts, of which each is left out where the one before fails. -/
theorem init_eq : init clientNum o p w =
    let q := radosInit clientNum o (memberInit p) w
    let m := initProxyMsgr o q.2.1 q.2.2
    if q.1 = false then q.2 else if m.1 = false then m.2 else startWorker o m.2.1 m.2.2 := by
  unfold init
  rcases radosInit clientNum o (memberInit p) w with ⟨_ | _, p₁, w₁⟩
  · rfl
  · dsimp only
    rcases initProxyMsgr o p₁ w₁ with ⟨_ | _, p₂, w₂⟩
    · rfl
    · rfl

/-- What is lost when `MemberInit` is through stays lost. -/
theorem Spoilt.init_of_radosInit
    (h : Spoilt (ProxyLifecycle.radosInit clientNum o (ProxyLifecycle.memberInit p) w).2.1
      (ProxyLifecycle.radosInit clientNum o (ProxyLifecycle.memberInit p) w).2.2) :
    Spoilt (init clientNum o p w).1 (init clientNum o p w).2 := by
  rw [init_eq]
  dsimp only
  split_ifs
  · exact h
  · exact h.initProxyMsgr
  · exact h.initProxyMsgr.startWorker

theorem Spoilt.init (h : Spoilt p w) : Spoilt (init clientNum o p w).1 (init clientNum o p w).2 :=
  .init_of_radosInit h.memberInit.radosInit

theorem Spoilt.getIoCtx {key : Key} {ok : Bool} (h : Spoilt p w) :
    Spoilt (getIoCtx key ok p w).1 (getIoCtx key ok p w).2 := by
  unfold ProxyLifecycle.getIoCtx
  cases p.ptable.lookup key with
  | some x => exact h
  | none =>
    cases hmain : p.radosClient with
    | none => exact .inl rfl
    | some c =>
      dsimp only
      split_ifs
      · refine (h.use _).opened _ fun r hr => ?_
        cases r with
        | client n =>
          rw [Proxy.Owns, Proxy.clients, hmain]
          exact .inl hr
        | ioctx x =>
          simp only [Proxy.Owns, Proxy.ctxs, List.map_append, List.mem_append, List.map_cons,
            List.map_nil, List.mem_singleton] at hr ⊢
          rcases hr with (hr | rfl) | hr
          · exact .inl (.inl hr)
          · exact .inr le_rfl
          · exact .inl (.inr hr)
        | msgr n => exact .inl hr
        | worker n => exact .inl hr
      · exact h.use _

theorem Spoilt.createLoop {made : ℕ} {cs : List ℕ} {tMap : List Ctx} (h : Spoilt p w) :
    Spoilt p (createLoop made cs tMap w).2 := by
  induction cs generalizing made tMap w with
  | nil =>
    unfold ProxyLifecycle.createLoop
    exact h
  | cons c cs ih =>
    cases made with
    | zero => exact h.use _
    | succ made => exact ih ((h.use _).opened _ fun r hr => .inl hr)

/-- A table for a pool that is not complete is as good as in `pMap` already. -/
def Proxy.withPool (p : Proxy) (poolId : ℤ) (tMap : List Ctx) : Proxy :=
  { p with pMap := p.pMap ++ [(poolId, tMap)] }

theorem ctxs_withPool {poolId : ℤ} {tMap : List Ctx} :
    (p.withPool poolId tMap).ctxs = p.ctxs ++ tMap := by
  simp [Proxy.withPool, Proxy.ctxs]

theorem Spoilt.createLoop_some {poolId : ℤ} {made : ℕ} {cs : List ℕ} {tMap tMap' : List Ctx}
    {w' : World} (h : Spoilt (p.withPool poolId tMap) w)
    (hloop : ProxyLifecycle.createLoop made cs tMap w = (some tMap', w')) :
    Spoilt (p.withPool poolId tMap') w' := by
  induction cs generalizing made tMap w with
  | nil =>
    unfold ProxyLifecycle.createLoop at hloop
    cases hloop
    exact h
  | cons c cs ih =>
    cases made with
    | zero => exact nomatch hloop
    | succ made =>
      refine ih ((h.use (.client c)).opened _ fun r hr => ?_) hloop
      cases r with
      | client n => exact .inl hr
      | ioctx x =>
        simp only [Proxy.Owns, ctxs_withPool, List.mem_append, List.mem_singleton] at hr ⊢
        rcases hr with hr | hr | rfl
        · exact .inl (.inl hr)
        · exact .inl (.inr hr)
        · exact .inr le_rfl
      | msgr n => exact .inl hr
      | worker n => exact .inl hr

theorem Spoilt.getIoCtxWithClient {poolId : ℤ} {made : ℕ} (h : Spoilt p w) :
    Spoilt (getIoCtxWithClient poolId made p w).1 (getIoCtxWithClient poolId made p w).2 := by
  unfold ProxyLifecycle.getIoCtxWithClient
  cases p.pMap.lookup poolId with
  | some tMap => exact h
  | none =>
    dsimp only
    rcases hloop : ProxyLifecycle.createLoop made p.ioClientVec [] w with ⟨_ | tMap, w'⟩
    · have hspoilt : Spoilt p (ProxyLifecycle.createLoop made p.ioClientVec [] w).2 := h.createLoop
      rw [hloop] at hspoilt
      exact hspoilt
    · refine Spoilt.createLoop_some (h.members fun r hr => ?_) hloop
      cases r with
      | ioctx x =>
        rw [Proxy.Owns, ctxs_withPool, List.append_nil] at hr
        exact hr
      | client n => exact hr
      | msgr n => exact hr
      | worker n => exact hr

theorem Spoilt.shutdown (h : Spoilt p w) : Spoilt {} (shutdown p w) := by
  rw [shutdown_eq]
  refine (h.closeAll fun r hr => hr).members fun r hr => ?_
  cases r with
  | client n => exact nomatch hr
  | ioctx x => exact nomatch hr
  | msgr n => exact nomatch hr
  | worker n => exact nomatch hr

/-- What is lost once is lost in every later state. -/
theorem Spoilt.step (h : Spoilt s.getProxy s.world) (hs : step s a = some t) :
    Spoilt t.getProxy t.world := by
  cases a with
  | init clientNum o =>
    obtain rfl := Option.some.inj hs
    exact h.init
  | getIoCtx key ok =>
    obtain ⟨-, hs⟩ := Option.ite_none_right_eq_some.mp hs
    obtain rfl := Option.some.inj hs
    exact h.getIoCtx
  | getIoCtxWithClient poolId made =>
    obtain ⟨-, hs⟩ := Option.ite_none_right_eq_some.mp hs
    obtain rfl := Option.some.inj hs
    exact h.getIoCtxWithClient
  | shutdown =>
    obtain ⟨-, hs⟩ := Option.ite_none_right_eq_some.mp hs
    obtain rfl := Option.some.inj hs
    exact h.shutdown

end Books

/-! ## A proxy that has lost nothing -/

/-- What is open is what the members say, except that `radosClient` may be closed. Before a caller
has the instance there is no context and no worker thread. -/
structure Sound (p : Proxy) (w : World) : Prop where
  faultless : w.books.fault = false
  owned : ∀ r ∈ w.books.live, p.Owns r
  alive : ∀ r, p.Owns r → r ∈ w.books.live ∨ p.radosClient.map .client = some r
  fresh : ∀ r ∈ w.books.live, r.number < w.next
  ctxs : p.ctxs.Nodup
  clients : p.clients.Nodup
  idle : p.handed = false → p.ctxs = [] ∧ p.worker = none
  main : MainLive p w ∨ p.handed = false ∧ p.msgrHandler = none

section Sound

variable {p : Proxy} {w : World} {o : Outcome} {clientNum : ℕ}

theorem Sound.start : Sound {} {} where
  faultless := rfl
  owned := nofun
  alive := fun r h => by cases r <;> exact nomatch h
  fresh := nofun
  ctxs := List.nodup_nil
  clients := List.nodup_nil
  idle := fun _ => ⟨rfl, rfl⟩
  main := .inr ⟨rfl, rfl⟩

theorem Sound.main_live_of_handed (h : Sound p w) (hhanded : p.handed = true) : MainLive p w := by
  rcases h.main with hmain | ⟨hnot, -⟩
  · exact hmain
  · exact nomatch hhanded.symm.trans hnot

/-- With the main client open, all that the members say is. -/
theorem Sound.mem_live_iff (h : Sound p w) (hmain : MainLive p w) (r : Res) :
    r ∈ w.books.live ↔ p.Owns r := by
  refine ⟨h.owned r, fun hr => ?_⟩
  rcases h.alive r hr with hlive | hr
  · exact hlive
  · obtain ⟨c, hc, hlive⟩ := hmain
    rw [hc] at hr
    exact Option.some.inj hr ▸ hlive

theorem Sound.ioctx_live (h : Sound p w) {x : Ctx} (hx : x ∈ p.ctxs) :
    .ioctx x ∈ w.books.live := by
  rcases h.alive (.ioctx x) hx with hlive | hmain
  · exact hlive
  · obtain ⟨c, -, hc⟩ := Option.map_eq_some_iff.mp hmain
    exact nomatch hc

/-- The clients for io are open, whatever has become of the main one. -/
theorem Sound.client_live (h : Sound p w) {c : ℕ} (hc : c ∈ p.ioClientVec) :
    .client c ∈ w.books.live := by
  rcases h.alive (.client c) (List.mem_append_right _ hc) with hlive | hmain
  · exact hlive
  · obtain ⟨c', hc', heq⟩ := Option.map_eq_some_iff.mp hmain
    obtain rfl : c' = c := Res.client.inj heq
    have hnodup := h.clients
    rw [Proxy.clients, hc', Option.toList_some, List.singleton_append, List.nodup_cons] at hnodup
    exact absurd hc hnodup.1

theorem Sound.memberInit (h : Sound p w) (hempty : p.ptable = []) : Sound (memberInit p) w := by
  have hctxs : (ProxyLifecycle.memberInit p).ctxs = p.ctxs := by
    rw [Proxy.ctxs, Proxy.ctxs, hempty]
    rfl
  have howns (r : Res) : (ProxyLifecycle.memberInit p).Owns r ↔ p.Owns r := by
    cases r with
    | ioctx x => rw [Proxy.Owns, Proxy.Owns, hctxs]
    | client n => exact Iff.rfl
    | msgr n => exact Iff.rfl
    | worker n => exact Iff.rfl
  exact {
    faultless := h.faultless
    owned := fun r hr => (howns r).mpr (h.owned r hr)
    alive := fun r hr => h.alive r ((howns r).mp hr)
    fresh := h.fresh
    ctxs := hctxs ▸ h.ctxs
    clients := h.clients
    idle := fun hnot => hctxs ▸ h.idle hnot
    main := h.main }

/-- `RadosClientInit(&radosClient)` where no main client is open. -/
theorem Sound.connect (h : Sound p w) (hmain : ¬ MainLive p w) :
    Sound { p with radosClient := some w.next } (w.opened [.client w.next]) := by
  have hidle := h.main.resolve_left hmain
  have hdead {c : ℕ} (hc : p.radosClient = some c) : .client c ∉ w.books.live :=
    fun hlive => hmain ⟨c, hc, hlive⟩
  exact {
    faultless := h.faultless
    owned := by
      intro r hr
      rcases Books.mem_opened.mp hr with hr | hr
      · have howns := h.owned r hr
        cases r with
        | client n =>
          rcases List.mem_append.mp howns with hn | hn
          · exact absurd hr (hdead (Option.mem_toList.mp hn))
          · exact List.mem_cons_of_mem _ hn
        | ioctx x => exact howns
        | msgr n => exact howns
        | worker n => exact howns
      · rw [List.mem_singleton.mp hr]
        exact List.mem_cons_self
    alive := by
      intro r hr
      cases r with
      | client n =>
        rcases List.mem_cons.mp hr with rfl | hr
        · exact .inr rfl
        · exact .inl (Books.mem_opened.mpr (.inl (h.client_live hr)))
      | ioctx x => exact .inl (Books.mem_opened.mpr (.inl (h.ioctx_live hr)))
      | msgr n => exact nomatch hidle.2.symm.trans hr
      | worker n => exact nomatch (h.idle hidle.1).2.symm.trans hr
    fresh := by
      intro r hr
      rcases Books.mem_opened.mp hr with hr | hr
      · exact Nat.lt_succ_of_lt (h.fresh r hr)
      · rw [List.mem_singleton.mp hr]
        exact Nat.lt_succ_self _
    ctxs := h.ctxs
    clients := by
      refine List.nodup_cons.mpr ⟨fun hmem => ?_, (List.nodup_append.mp h.clients).2.1⟩
      exact lt_irrefl _ (h.fresh _ (h.client_live hmem))
    idle := h.idle
    main := .inl ⟨w.next, rfl, Books.mem_opened.mpr (.inr List.mem_cons_self)⟩ }

theorem Sound.not_owns (h : Sound p w) (hmain : MainLive p w) {r : Res}
    (hnum : r.number = w.next) : ¬ p.Owns r := by
  intro hr
  have hlt := h.fresh r ((h.mem_live_iff hmain r).mpr hr)
  omega

theorem MainLive.opened {p' : Proxy} (h : MainLive p w) (rs : List Res)
    (hp : p'.radosClient = p.radosClient) : MainLive p' (w.opened rs) := by
  obtain ⟨c, hc, hlive⟩ := h
  exact ⟨c, hp.trans hc, Books.mem_opened.mpr (.inl hlive)⟩

/-- With the main client open, something new is opened and put into a member. -/
theorem Sound.opened {p' : Proxy} (h : Sound p w) (hmain : MainLive p w) {r : Res}
    (hnum : r.number = w.next) (howns : ∀ r', p'.Owns r' ↔ p.Owns r' ∨ r' = r)
    (hctxs : p'.ctxs.Nodup) (hclients : p'.clients.Nodup)
    (hp : p'.radosClient = p.radosClient)
    (hidle : p'.handed = false → p'.ctxs = [] ∧ p'.worker = none) :
    Sound p' (w.opened [r]) where
  faultless := h.faultless
  owned := by
    intro r' hr'
    rw [howns]
    rcases Books.mem_opened.mp hr' with hr' | hr'
    · exact .inl (h.owned r' hr')
    · exact .inr (List.mem_singleton.mp hr')
  alive := by
    intro r' hr'
    refine .inl (Books.mem_opened.mpr ?_)
    rcases (howns r').mp hr' with hr' | rfl
    · exact .inl ((h.mem_live_iff hmain r').mpr hr')
    · exact .inr List.mem_cons_self
  fresh := by
    intro r' hr'
    rcases Books.mem_opened.mp hr' with hr' | hr'
    · exact Nat.lt_succ_of_lt (h.fresh r' hr')
    · rw [List.mem_singleton.mp hr', hnum]
      exact Nat.lt_succ_self _
  ctxs := hctxs
  clients := hclients
  idle := hidle
  main := .inl (hmain.opened [r] hp)

/-- One more client for io. -/
theorem Sound.push (h : Sound p w) (hmain : MainLive p w) :
    Sound { p with ioClientVec := p.ioClientVec ++ [w.next] } (w.opened [.client w.next]) := by
  have hclients : Proxy.clients { p with ioClientVec := p.ioClientVec ++ [w.next] } =
      p.clients ++ [w.next] := (List.append_assoc ..).symm
  refine h.opened hmain rfl (fun r => ?_) h.ctxs ?_ rfl h.idle
  · cases r with
    | client n =>
      rw [Proxy.Owns, hclients, List.mem_append, List.mem_singleton, Res.client.injEq]
      rfl
    | ioctx x => simp [Proxy.Owns, Proxy.ctxs]
    | msgr n => simp [Proxy.Owns]
    | worker n => simp [Proxy.Owns]
  · rw [hclients, ← List.concat_eq_append]
    exact h.clients.concat (h.not_owns hmain (r := .client w.next) rfl)

theorem Sound.clientLoop (left clients : ℕ) (h : Sound p w) (hmain : MainLive p w) :
    Sound (clientLoop left clients p w).2.1 (clientLoop left clients p w).2.2 ∧
      MainLive (ProxyLifecycle.clientLoop left clients p w).2.1
        (ProxyLifecycle.clientLoop left clients p w).2.2 := by
  induction left generalizing clients p w with
  | zero => exact ⟨h, hmain⟩
  | succ left ih =>
    cases clients with
    | zero => exact ⟨h, hmain⟩
    | succ clients => exact ih clients (h.push hmain) (hmain.opened _ rfl)

/-- The loop comes to its end if all its calls succeed, and touches no other member. -/
theorem clientLoop_frame (left clients : ℕ) (p : Proxy) (w : World) :
    (clientLoop left clients p w).1 = decide (left ≤ clients) ∧
      (clientLoop left clients p w).2.1 =
        { p with ioClientVec := (clientLoop left clients p w).2.1.ioClientVec } := by
  induction left generalizing clients p w with
  | zero => exact ⟨rfl, rfl⟩
  | succ left ih =>
    cases clients with
    | zero => exact ⟨rfl, rfl⟩
    | succ clients =>
      obtain ⟨hall, hframe⟩ := ih clients { p with ioClientVec := p.ioClientVec ++ [w.next] }
        (w.opened [.client w.next])
      refine ⟨hall.trans ?_, hframe⟩
      rw [decide_eq_decide]
      exact Nat.succ_le_succ_iff.symm

/-- `Init` gives up and closes the main client again. -/
theorem Sound.shutdownMain (h : Sound p w) (hmain : MainLive p w) (hhanded : p.handed = false)
    (hmsgr : p.msgrHandler = none) : Sound p (shutdownMain p w) := by
  have hidle := h.idle hhanded
  have hlive (r : Res) : r ∈ (ProxyLifecycle.shutdownMain p w).books.live ↔
      r ∈ w.books.live ∧ p.radosClient.map .client ≠ some r := by
    rw [ProxyLifecycle.shutdownMain, mem_closeAll]
    refine and_congr_right fun _ => not_congr ?_
    simp [Option.map_eq_some_iff]
  obtain ⟨c, hc, hopen⟩ := hmain
  exact {
    faultless := by
      rw [ProxyLifecycle.shutdownMain, hc]
      refine (Books.fault_close hopen fun r hr howner => ?_).trans h.faultless
      obtain ⟨x, rfl, -⟩ := ioctx_of_owner howner
      have hx : x ∈ p.ctxs := h.owned _ hr
      rw [hidle.1] at hx
      exact List.not_mem_nil hx
    owned := fun r hr => h.owned r ((hlive r).mp hr).1
    alive := by
      intro r hr
      by_cases hmain : p.radosClient.map .client = some r
      · exact .inr hmain
      · exact .inl ((hlive r).mpr ⟨(h.alive r hr).resolve_right hmain, hmain⟩)
    fresh := fun r hr => h.fresh r ((hlive r).mp hr).1
    ctxs := h.ctxs
    clients := h.clients
    idle := h.idle
    main := .inr ⟨hhanded, hmsgr⟩ }

theorem radosInit_up (clientNum : ℕ) (h : Sound p w) (hmain : ¬ MainLive p w) (ho : o.main = .up) :
    (radosInit clientNum o p w).1 = decide (clientNum ≤ o.clients) ∧
      Sound (radosInit clientNum o p w).2.1 (radosInit clientNum o p w).2.2 ∧
      MainLive (radosInit clientNum o p w).2.1 (radosInit clientNum o p w).2.2 ∧
      (radosInit clientNum o p w).2.1.handed = false ∧
      (radosInit clientNum o p w).2.1.msgrHandler = none := by
  have hidle := h.main.resolve_left hmain
  have hsound := h.connect hmain
  have hlive : MainLive { p with radosClient := some w.next } (w.opened [.client w.next]) :=
    ⟨w.next, rfl, Books.mem_opened.mpr (.inr List.mem_cons_self)⟩
  obtain ⟨hall, hframe⟩ := clientLoop_frame clientNum o.clients
    { p with radosClient := some w.next } (w.opened [.client w.next])
  obtain ⟨hsound', hlive'⟩ := hsound.clientLoop clientNum o.clients hlive
  rw [radosInit, ho]
  refine ⟨hall, hsound', hlive', ?_, ?_⟩
  · rw [hframe]
    exact hidle.1
  · rw [hframe]
    exact hidle.2

theorem Sound.initProxyMsgr (h : Sound p w) (hmain : MainLive p w) (hhanded : p.handed = false)
    (hmsgr : p.msgrHandler = none) (ho : o.msgr ≠ .notStarted) :
    Sound (initProxyMsgr o p w).2.1 (initProxyMsgr o p w).2.2 ∧
      ((ProxyLifecycle.initProxyMsgr o p w).1 = true →
        MainLive (ProxyLifecycle.initProxyMsgr o p w).2.1
          (ProxyLifecycle.initProxyMsgr o p w).2.2 ∧
        (ProxyLifecycle.initProxyMsgr o p w).2.1.handed = false) := by
  unfold ProxyLifecycle.initProxyMsgr
  cases hmsgr' : o.msgr with
  | noMemory => exact ⟨h.shutdownMain hmain hhanded hmsgr, nofun⟩
  | notStarted => exact absurd hmsgr' ho
  | started =>
    refine ⟨h.opened hmain rfl (fun r => ?_) h.ctxs h.clients rfl h.idle,
      fun _ => ⟨hmain.opened _ rfl, hhanded⟩⟩
    cases r with
    | client n => simp [Proxy.Owns, Proxy.clients]
    | ioctx x => simp [Proxy.Owns, Proxy.ctxs]
    | msgr n => simp [Proxy.Owns, hmsgr, eq_comm]
    | worker n => simp [Proxy.Owns]

theorem Sound.startWorker (h : Sound p w) (hmain : MainLive p w) (hhanded : p.handed = false) :
    Sound (startWorker o p w).1 (startWorker o p w).2 := by
  have hworker := (h.idle hhanded).2
  unfold ProxyLifecycle.startWorker
  split_ifs
  · exact h
  · rw [← hworker]
    exact h
  · refine h.opened hmain rfl (fun r => ?_) h.ctxs h.clients rfl nofun
    cases r with
    | client n => simp [Proxy.Owns, Proxy.clients]
    | ioctx x => simp [Proxy.Owns, Proxy.ctxs]
    | msgr n => simp [Proxy.Owns]
    | worker n => simp [Proxy.Owns, hworker, eq_comm]

/-- `MemberInit` forgets the contexts of the table. -/
theorem spoilt_memberInit (h : Sound p w) (hempty : p.ptable ≠ []) :
    Spoilt (memberInit p) w := by
  obtain ⟨e, rest, he⟩ := List.exists_cons_of_ne_nil hempty
  have hctxs := h.ctxs
  rw [Proxy.ctxs, he, List.map_cons, List.cons_append, List.nodup_cons] at hctxs
  have hmem : e.2 ∈ p.ctxs := by
    rw [Proxy.ctxs, he]
    exact List.mem_cons_self
  have hlive := h.ioctx_live hmem
  refine .inr ⟨_, hlive, fun hheld => hctxs.1 ?_, h.fresh _ hlive⟩
  exact List.mem_append_right _ (mem_held.mp hheld)

/-- A main client that is written over is lost. -/
theorem spoilt_without_main (h : Sound p w) (hmain : MainLive p w) :
    Spoilt { p with radosClient := none } w := by
  obtain ⟨c, hc, hlive⟩ := hmain
  have hclients := h.clients
  rw [Proxy.clients, hc, Option.toList_some, List.singleton_append, List.nodup_cons] at hclients
  exact .inr ⟨_, hlive, fun hheld => hclients.1 (mem_held.mp hheld), h.fresh _ hlive⟩

theorem spoilt_radosInit (h : Sound p w) (hmain : MainLive p w)
    (ho : o.main ≠ .untouched) :
    Spoilt (radosInit clientNum o p w).2.1 (radosInit clientNum o p w).2.2 := by
  have hlost := spoilt_without_main h hmain
  unfold radosInit
  cases hmain' : o.main with
  | untouched => exact absurd hmain' ho
  | cleared => exact hlost
  | up =>
    refine Spoilt.clientLoop (hlost.opened _ fun r hr => ?_)
    cases r with
    | client n =>
      rcases List.mem_cons.mp hr with rfl | hr
      · exact .inr le_rfl
      · exact .inl hr
    | ioctx x => exact .inl hr
    | msgr n => exact .inl hr
    | worker n => exact .inl hr

/-- A messenger that does not start is lost. -/
theorem spoilt_initProxyMsgr (w : World) (hmsgr : p.msgrHandler = none)
    (ho : o.msgr = .notStarted) :
    Spoilt (initProxyMsgr o p w).2.1 (initProxyMsgr o p w).2.2 := by
  unfold initProxyMsgr
  rw [ho]
  refine Spoilt.shutdownMain (.inr ⟨.msgr w.next, ?_, fun hheld => ?_, Nat.lt_succ_self _⟩)
  · exact Books.mem_opened.mpr (.inr List.mem_cons_self)
  · exact nomatch hmsgr.symm.trans (mem_held.mp hheld)

/-! ## What one call keeps -/

theorem Sound.init {s : State} (h : Sound s.getProxy s.world)
    (hok : Unspoilt s (.init clientNum o)) :
    Sound (init clientNum o s.getProxy s.world).1 (init clientNum o s.getProxy s.world).2 := by
  obtain ⟨hempty, hok⟩ := hok
  have hbegun := h.memberInit hempty
  rw [init_eq]
  cases ho : o.main with
  | untouched =>
    rw [radosInit, ho]
    exact hbegun
  | cleared =>
    rw [ho] at hok
    have hidle := h.main.resolve_left hok
    rw [radosInit, ho]
    exact {
      faultless := h.faultless
      owned := by
        intro r hr
        have howns := hbegun.owned r hr
        cases r with
        | client n =>
          rcases List.mem_append.mp howns with hn | hn
          · exact absurd ⟨n, Option.mem_toList.mp hn, hr⟩ hok
          · exact hn
        | ioctx x => exact howns
        | msgr n => exact howns
        | worker n => exact howns
      alive := by
        intro r hr
        cases r with
        | client n => exact .inl (h.client_live hr)
        | ioctx x => exact .inl (hbegun.ioctx_live hr)
        | msgr n => exact nomatch hidle.2.symm.trans hr
        | worker n => exact nomatch (h.idle hidle.1).2.symm.trans hr
      fresh := h.fresh
      ctxs := hbegun.ctxs
      clients := (List.nodup_append.mp h.clients).2.1
      idle := hbegun.idle
      main := .inr hidle }
  | up =>
    rw [ho] at hok
    obtain ⟨hflag, hsound, hlive, hhanded, hmsgr⟩ := radosInit_up clientNum hbegun
      hok.1 ho
    dsimp only
    split_ifs with hfail hfail'
    · exact hsound
    all_goals
      have hall : clientNum ≤ o.clients := by
        rw [hflag, decide_eq_false_iff_not, not_not] at hfail
        exact hfail
      obtain ⟨hsound', hnext⟩ := hsound.initProxyMsgr (o := o) hlive hhanded hmsgr
        (hok.2.resolve_left hall.not_gt)
    · exact hsound'
    · rw [Bool.not_eq_false] at hfail'
      exact hsound'.startWorker (hnext hfail').1 (hnext hfail').2

theorem spoilt_init {s : State} (h : Sound s.getProxy s.world)
    (hnot : ¬ Unspoilt s (.init clientNum o)) :
    Spoilt (init clientNum o s.getProxy s.world).1 (init clientNum o s.getProxy s.world).2 := by
  by_cases hempty : s.getProxy.ptable = []
  swap
  · exact .init_of_radosInit (spoilt_memberInit h hempty).radosInit
  have hbegun := h.memberInit hempty
  have hnot' : ¬ _ := fun hok => hnot ⟨hempty, hok⟩
  by_cases hmain : MainLive s.getProxy s.world
  · refine .init_of_radosInit (spoilt_radosInit hbegun hmain fun ho => hnot' ?_)
    rw [ho]
    trivial
  cases ho : o.main with
  | untouched =>
    rw [ho] at hnot'
    exact absurd trivial hnot'
  | cleared =>
    rw [ho] at hnot'
    exact absurd hmain hnot'
  | up =>
    rw [ho] at hnot'
    obtain ⟨hall, hmsgr⟩ := not_or.mp fun hok => hnot' ⟨hmain, hok⟩
    obtain ⟨hflag, hsound, -, -, hnone⟩ := radosInit_up clientNum hbegun hmain ho
    rw [not_ne_iff] at hmsgr
    have hspoilt := spoilt_initProxyMsgr
      (radosInit clientNum o (memberInit s.getProxy) s.world).2.2 hnone hmsgr
    rw [init_eq]
    dsimp only
    rw [hflag, decide_eq_true (not_lt.mp hall), if_neg nofun, initProxyMsgr, hmsgr]
    rwa [initProxyMsgr, hmsgr] at hspoilt

theorem Sound.use (h : Sound p w) {r : Res} (hr : r ∈ w.books.live) : Sound p (w.use r) :=
  { h with faultless := (Books.fault_use hr).trans h.faultless }

theorem Sound.getIoCtx {key : Key} {ok : Bool} (h : Sound p w) (hhanded : p.handed = true) :
    Sound (getIoCtx key ok p w).1 (getIoCtx key ok p w).2 := by
  have hmain := h.main_live_of_handed hhanded
  obtain ⟨c, hc, hlive⟩ := id hmain
  unfold ProxyLifecycle.getIoCtx
  cases p.ptable.lookup key with
  | some x => exact h
  | none =>
    rw [hc]
    dsimp only
    split_ifs
    · have hctxs (x : Ctx) : Proxy.ctxs { p with ptable := p.ptable ++ [(key, x)] } =
          p.ptable.map (·.2) ++ x :: p.pMap.flatMap (·.2) := by
        simp [Proxy.ctxs]
      have hnew : (⟨w.next, c⟩ : Ctx) ∉ p.ctxs :=
        h.not_owns hmain (r := .ioctx ⟨w.next, c⟩) rfl
      rw [← hc]
      refine (h.use hlive).opened hmain rfl (fun r => ?_) ?_ h.clients rfl fun hnot =>
        nomatch hhanded.symm.trans hnot
      · cases r with
        | client n => simp [Proxy.Owns, Proxy.clients]
        | ioctx x =>
          rw [Proxy.Owns, hctxs, Proxy.Owns, Proxy.ctxs, List.mem_append, List.mem_cons,
            List.mem_append, Res.ioctx.injEq, or_assoc, or_comm (b := x ∈ _)]
        | msgr n => simp [Proxy.Owns]
        | worker n => simp [Proxy.Owns]
      · rw [hctxs]
        exact (List.perm_middle.nodup_iff).mpr (List.nodup_cons.mpr ⟨hnew, h.ctxs⟩)
    · exact h.use hlive

/-- Every context of the loop goes into its table. -/
theorem Sound.createLoop_some {poolId : ℤ} {made : ℕ} {cs : List ℕ} {tMap tMap' : List Ctx}
    {w' : World} (h : Sound (p.withPool poolId tMap) w) (hhanded : p.handed = true)
    (hcs : ∀ c ∈ cs, c ∈ p.ioClientVec)
    (hloop : createLoop made cs tMap w = (some tMap', w')) :
    Sound (p.withPool poolId tMap') w' := by
  induction cs generalizing made tMap w with
  | nil =>
    unfold ProxyLifecycle.createLoop at hloop
    cases hloop
    exact h
  | cons c cs ih =>
    cases made with
    | zero => exact nomatch hloop
    | succ made =>
      have hmain := h.main_live_of_handed hhanded
      have hlive := h.client_live (hcs c List.mem_cons_self)
      have hsound : Sound (p.withPool poolId (tMap ++ [⟨w.next, c⟩]))
          ((w.use (.client c)).opened [.ioctx ⟨w.next, c⟩]) := by
        refine (h.use hlive).opened hmain rfl (fun r => ?_) ?_ h.clients rfl fun hnot =>
          nomatch hhanded.symm.trans hnot
        · cases r with
          | ioctx x => simp [Proxy.Owns, ctxs_withPool, or_assoc]
          | client n => simp [Proxy.Owns, Proxy.clients, Proxy.withPool]
          | msgr n => simp [Proxy.Owns, Proxy.withPool]
          | worker n => simp [Proxy.Owns, Proxy.withPool]
        · have hnew : (⟨w.next, c⟩ : Ctx) ∉ (p.withPool poolId tMap).ctxs :=
            h.not_owns hmain (r := .ioctx ⟨w.next, c⟩) rfl
          have hnodup := h.ctxs.concat hnew
          rwa [ctxs_withPool, List.concat_eq_append, List.append_assoc, ← ctxs_withPool] at hnodup
      exact ih hsound (fun c hc => hcs c (List.mem_cons_of_mem _ hc)) hloop

/-- The loop comes to its end if a context can be made for every client. -/
theorem createLoop_isSome (made : ℕ) (cs : List ℕ) (tMap : List Ctx) (w : World) :
    (createLoop made cs tMap w).1.isSome ↔ cs.length ≤ made := by
  induction cs generalizing made tMap w with
  | nil =>
    unfold createLoop
    exact iff_of_true rfl (Nat.zero_le _)
  | cons c cs ih =>
    cases made with
    | zero => exact iff_of_false nofun nofun
    | succ made => exact (ih _ _ _).trans Nat.succ_le_succ_iff.symm

theorem Sound.getIoCtxWithClient {s : State} {poolId : ℤ} {made : ℕ}
    (h : Sound s.getProxy s.world) (hhanded : s.getProxy.handed = true)
    (hok : Unspoilt s (.getIoCtxWithClient poolId made)) :
    Sound (getIoCtxWithClient poolId made s.getProxy s.world).1
      (getIoCtxWithClient poolId made s.getProxy s.world).2 := by
  unfold ProxyLifecycle.getIoCtxWithClient
  cases hlookup : s.getProxy.pMap.lookup poolId with
  | some tMap => exact h
  | none =>
    have hdone := createLoop_isSome made s.getProxy.ioClientVec [] s.world
    dsimp only
    rcases hloop : createLoop made s.getProxy.ioClientVec [] s.world with ⟨_ | tMap, w'⟩
    · rw [hloop] at hdone
      have hlt := hdone.not.mp nofun
      rw [Unspoilt, hlookup] at hok
      obtain rfl := (hok.resolve_left nofun).resolve_right hlt
      cases hcs : s.getProxy.ioClientVec with
      | nil =>
        rw [hcs] at hlt
        exact absurd (Nat.zero_le _) hlt
      | cons c cs =>
        rw [hcs, createLoop] at hloop
        cases hloop
        exact h.use (h.client_live (hcs ▸ List.mem_cons_self))
    · refine Sound.createLoop_some ?_ hhanded (fun _ hc => hc) hloop
      have hctxs : (s.getProxy.withPool poolId []).ctxs = s.getProxy.ctxs := by
        rw [ctxs_withPool, List.append_nil]
      have howns (r : Res) : (s.getProxy.withPool poolId []).Owns r ↔ s.getProxy.Owns r := by
        cases r with
        | ioctx x => rw [Proxy.Owns, hctxs, Proxy.Owns]
        | client n => exact Iff.rfl
        | msgr n => exact Iff.rfl
        | worker n => exact Iff.rfl
      exact { h with
        owned := fun r hr => (howns r).mpr (h.owned r hr)
        alive := fun r hr => h.alive r ((howns r).mp hr)
        ctxs := hctxs ▸ h.ctxs
        idle := fun hnot => hctxs ▸ h.idle hnot }

/-- A call that makes some contexts and not all loses the first. -/
theorem spoilt_getIoCtxWithClient {s : State} {poolId : ℤ} {made : ℕ}
    (h : Sound s.getProxy s.world) (hhanded : s.getProxy.handed = true)
    (hnot : ¬ Unspoilt s (.getIoCtxWithClient poolId made)) :
    Spoilt (getIoCtxWithClient poolId made s.getProxy s.world).1
      (getIoCtxWithClient poolId made s.getProxy s.world).2 := by
  rw [Unspoilt, not_or, not_or, Option.not_isSome_iff_eq_none] at hnot
  obtain ⟨hlookup, hzero, hlt⟩ := hnot
  have hmain := h.main_live_of_handed hhanded
  have hfail := (createLoop_isSome made s.getProxy.ioClientVec [] s.world).not.mpr hlt
  have hspoilt : Spoilt s.getProxy
      (createLoop made s.getProxy.ioClientVec [] s.world).2 := by
    cases hcs : s.getProxy.ioClientVec with
    | nil =>
      rw [hcs] at hlt
      exact absurd (Nat.zero_le _) hlt
    | cons c cs =>
      cases made with
      | zero => exact absurd rfl hzero
      | succ made =>
        let w : World := (s.world.use (.client c)).opened [.ioctx ⟨s.world.next, c⟩]
        refine Spoilt.createLoop (w := w) (.inr
          ⟨.ioctx ⟨s.world.next, c⟩, ?_, ?_, Nat.lt_succ_self _⟩)
        · exact Books.mem_opened.mpr (.inr List.mem_cons_self)
        · exact fun hheld => h.not_owns hmain (r := .ioctx ⟨s.world.next, c⟩) rfl
            (mem_held.mp hheld)
  unfold getIoCtxWithClient
  rw [hlookup]
  dsimp only
  rcases hloop : createLoop made s.getProxy.ioClientVec [] s.world with ⟨_ | tMap, w'⟩
  · rwa [hloop] at hspoilt
  · rw [hloop] at hfail
    exact absurd rfl hfail

theorem nodup_held (hctxs : p.ctxs.Nodup) (hclients : p.clients.Nodup) : p.held.Nodup := by
  rw [Proxy.ctxs, List.nodup_append] at hctxs
  obtain ⟨htable, hmap, hdisj⟩ := hctxs
  have htable' : (p.ptable.map fun e => Res.ioctx e.2).Nodup := by
    have hnodup := htable.map fun _ _ => Res.ioctx.inj
    rwa [List.map_map] at hnodup
  have hmap' := hmap.map fun _ _ => Res.ioctx.inj
  have hclients' := hclients.map fun _ _ => Res.client.inj
  have hworker : (p.worker.toList.map Res.worker).Nodup := by cases p.worker <;> simp
  have hmsgr : (p.msgrHandler.toList.map Res.msgr).Nodup := by cases p.msgrHandler <;> simp
  refine (((hworker.append htable' ?_).append hmsgr ?_).append hmap' ?_).append hclients' ?_
  all_goals
    intro r hr hr'
    cases r with
    | client n => simp at hr hr'
    | ioctx x =>
      simp only [List.mem_append, List.mem_map, reduceCtorEq, and_false, exists_false, false_or,
        or_false, Res.ioctx.injEq, exists_eq_right] at hr hr'
      try exact hdisj x (List.mem_map.mpr hr) x hr' rfl
    | msgr n => simp at hr hr'
    | worker n => simp at hr hr'

theorem held_order : p.held.Pairwise fun r r' => r'.owner ≠ some r := by
  -- what stands in front of the clients is no client
  have hfront : ∀ r ∈ p.worker.toList.map .worker ++ p.ptable.map (fun e => .ioctx e.2) ++
      p.msgrHandler.toList.map .msgr ++ (p.pMap.flatMap (·.2)).map .ioctx, ∀ c,
      r ≠ Res.client c := by
    rintro r hr c rfl
    simp at hr
  refine List.pairwise_append.mpr ⟨?_, ?_, fun r hr r' _ h => ?_⟩
  · refine List.pairwise_of_forall_mem_list fun r hr r' _ h => ?_
    obtain ⟨x, -, hc⟩ := ioctx_of_owner h
    exact hfront r hr _ hc
  · refine List.pairwise_of_forall_mem_list fun r _ r' hr' h => ?_
    obtain ⟨c, -, rfl⟩ := List.mem_map.mp hr'
    obtain ⟨x, hx, -⟩ := ioctx_of_owner h
    exact nomatch hx
  · obtain ⟨x, -, hc⟩ := ioctx_of_owner h
    exact hfront r hr _ hc

/-- `Shutdown` closes everything. -/
theorem Sound.shutdown (h : Sound p w) (hhanded : p.handed = true) :
    Sound {} (shutdown p w) := by
  have hlive (r : Res) : r ∈ w.books.live ↔ r ∈ p.held :=
    (h.mem_live_iff (h.main_live_of_handed hhanded) r).trans mem_held.symm
  have hself (r : Res) (howner : r.owner = some r) : False := by
    obtain ⟨x, rfl, hx⟩ := ioctx_of_owner howner
    exact nomatch hx
  have hclosed (r : Res) : r ∉ (w.closeAll p.held).books.live := fun hr =>
    (mem_closeAll.mp hr).2 ((hlive r).mp (mem_closeAll.mp hr).1)
  rw [shutdown_eq]
  exact { Sound.start with
    faultless := (Books.closeAll_sound hlive (nodup_held h.ctxs h.clients) hself held_order).trans
      h.faultless
    owned := fun r hr => absurd hr (hclosed r)
    alive := fun r hr => by cases r <;> exact nomatch hr
    fresh := fun r hr => absurd hr (hclosed r)
    main := .inr ⟨rfl, rfl⟩ }

end Sound

/-! ## Whole runs -/

section Run

variable {s t : State} {a : Label}

theorem Sound.step (h : Sound s.getProxy s.world) (hok : Unspoilt s a) (hs : step s a = some t) :
    Sound t.getProxy t.world := by
  cases a with
  | init clientNum o =>
    obtain rfl := Option.some.inj hs
    exact h.init hok
  | getIoCtx key ok =>
    obtain ⟨hhanded, hs⟩ := Option.ite_none_right_eq_some.mp hs
    obtain rfl := Option.some.inj hs
    exact h.getIoCtx hhanded
  | getIoCtxWithClient poolId made =>
    obtain ⟨hhanded, hs⟩ := Option.ite_none_right_eq_some.mp hs
    obtain rfl := Option.some.inj hs
    exact h.getIoCtxWithClient hhanded hok
  | shutdown =>
    obtain ⟨hhanded, hs⟩ := Option.ite_none_right_eq_some.mp hs
    obtain rfl := Option.some.inj hs
    exact h.shutdown hhanded

theorem spoilt_step (h : Sound s.getProxy s.world) (hnot : ¬ Unspoilt s a)
    (hs : step s a = some t) : Spoilt t.getProxy t.world := by
  cases a with
  | init clientNum o =>
    obtain rfl := Option.some.inj hs
    exact spoilt_init h hnot
  | getIoCtx key ok => exact absurd trivial hnot
  | getIoCtxWithClient poolId made =>
    obtain ⟨hhanded, hs⟩ := Option.ite_none_right_eq_some.mp hs
    obtain rfl := Option.some.inj hs
    exact spoilt_getIoCtxWithClient h hhanded hnot
  | shutdown => exact absurd trivial hnot

theorem not_sound_of_spoilt {p : Proxy} {w : World} (h : Spoilt p w) : ¬ Sound p w := by
  intro hs
  rcases h with hfault | ⟨r, hlive, hnot, -⟩
  · exact nomatch hfault.symm.trans hs.faultless
  · exact hnot (mem_held.mpr (hs.owned r hlive))

/-- A step keeps a sound proxy sound exactly if it spoils nothing, and what is spoilt stays so. -/
theorem sound_step (hi : Sound s.getProxy s.world ∨ Spoilt s.getProxy s.world)
    (hs : step s a = some t) :
    Sound t.getProxy t.world ↔ Sound s.getProxy s.world ∧ Unspoilt s a := by
  constructor
  · intro ht
    rcases hi with hsound | hspoilt
    · refine ⟨hsound, by_contra fun hnot => ?_⟩
      exact not_sound_of_spoilt (spoilt_step hsound hnot hs) ht
    · exact absurd ht (not_sound_of_spoilt (hspoilt.step hs))
  · rintro ⟨hsound, hok⟩
    exact hsound.step hok hs

theorem sound_or_spoilt_step (hi : Sound s.getProxy s.world ∨ Spoilt s.getProxy s.world)
    (hs : step s a = some t) : Sound t.getProxy t.world ∨ Spoilt t.getProxy t.world := by
  rcases hi with hsound | hspoilt
  · by_cases hok : Unspoilt s a
    · exact .inl (hsound.step hok hs)
    · exact .inr (spoilt_step hsound hok hs)
  · exact .inr (hspoilt.step hs)

theorem sound_or_spoilt {as : List Label} (hrun : run step s as = some t)
    (hi : Sound s.getProxy s.world ∨ Spoilt s.getProxy s.world) :
    Sound t.getProxy t.world ∨ Spoilt t.getProxy t.world :=
  (reach_of_run hrun fun _ _ _ => trivial : Reach step Free s t).invariant hi
    fun _ _ _ hi _ hs => sound_or_spoilt_step hi hs

theorem mem_held_getProxy {r : Res} :
    r ∈ s.getProxy.held ↔ ∃ p, s.proxy = some p ∧ r ∈ p.held := by
  unfold State.getProxy
  cases s.proxy with
  | none => exact iff_of_false nofun nofun
  | some p => simp

theorem tidy_iff (hi : Sound s.getProxy s.world ∨ Spoilt s.getProxy s.world) :
    Tidy s ↔ Sound s.getProxy s.world := by
  constructor
  · rintro ⟨hfault, hlive⟩
    refine hi.resolve_right fun hspoilt => ?_
    rcases hspoilt with hfault' | ⟨r, hr, hnot, -⟩
    · exact nomatch hfault.symm.trans hfault'
    · exact hnot (mem_held_getProxy.mpr (hlive r hr))
  · intro h
    exact ⟨h.faultless, fun r hr => mem_held_getProxy.mp (mem_held.mpr (h.owned r hr))⟩

/-- **The proxy closes everything, once and in order, exactly if no call spoils it.** After every
run what is open is what the instance holds, so that nothing is open when there is none, exactly
if every `Init` wrote over no open client and forgot no context, no messenger failed to start, and
every table of contexts was made for all clients or for none. -/
theorem proxy_tidy_iff {as : List Label} (hrun : run step {} as = some t) :
    Tidy t ↔ ForallSteps step Unspoilt {} as := by
  have hstart : Sound (State.getProxy {}) (State.world {}) := Sound.start
  rw [tidy_iff (sound_or_spoilt hrun (.inl hstart)),
    forallSteps_iff (fun _ _ _ => sound_or_spoilt_step) (fun _ _ _ => sound_step) hrun
      (.inl hstart), and_iff_right hstart]

/-- An `Init` that succeeds throughout. -/
def succeeding : Outcome where
  main := .up
  clients := 2
  msgr := .started
  cores := true
  worker := true

/-- A start without memory for the messenger; then start, use and stop. There are four clients for io
by then. -/
def retried : List Label :=
  [.init 2 { succeeding with msgr := .noMemory }, .init 2 succeeding, .getIoCtx (.id 7) true,
    .getIoCtxWithClient 7 4, .shutdown]

theorem proxy_tidy_iff_retried :
    ∃ t, run step {} retried = some t ∧ t.world.books.live = [] ∧
      (Tidy t ↔ ForallSteps step Unspoilt {} retried) :=
  ⟨_, rfl, by decide +kernel, proxy_tidy_iff rfl⟩

-- A start that fails at the worker thread: the next one writes over a client and a messenger.
example :
    (run step {} [.init 2 { succeeding with worker := false }, .init 2 succeeding, .shutdown]).map
      (·.world.books.live) = some [.client 0, .msgr 3] := by
  decide +kernel

end Run

end GcAdaptor.ProxyLifecycle
