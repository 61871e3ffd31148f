/-
The client plug-in over the lives of the Objecters that use it: `Objecter::init` and
`Objecter::shutdown`, `ClientAdaptorCcm::init_mgr` and `ccm_deregister`,
`ClientAdaptorMsg::das_init` and `das_remove`.

A `CephContext` has one plug-in. Every Objecter of the context registers itself with it, for the
two notify chains of CCM and for the prefetches of DAS, and every shutdown removes the plug-in
from the registry: also while other Objecters of the context are at work. What these have
registered is then known to nobody. The next `get_with_load` loads another plug-in, and this one
does not know them either.

Each Objecter is numbered by its `init`, and each plug-in by its loading. `Live.plugin` is the
plug-in an Objecter has registered with; `Orphaned` says that it is gone.
-/
import GcAdaptor.Interleave
import Mathlib.Data.List.Nodup
import Mathlib.Logic.Function.Basic

set_option autoImplicit false

namespace GcAdaptor.PluginLifecycle

open GcAdaptor.Interleave

/-! ## The process -/

abbrev Obj := ℕ
abbrev Ctx := ℕ

/-- The options of a context. -/
structure Conf where
  gcBypass : Bool
  globalCache : Bool

/-- A plug-in: `init_flag` and `register_objs` (`register_node_change_objs` has the same keys) of
its manager, `das_objs` and `initialized` of its `ClientAdaptorMsg`. -/
structure Plugin where
  id : ℕ
  initFlag : Bool := false
  registerObjs : List Obj := []
  dasObjs : List Obj := []
  initialized : Bool := false

/-- An Objecter that is initialised: its context, and the plug-in of the context at that time. -/
structure Live where
  obj : Obj
  ctx : Ctx
  plugin : ℕ

structure Process where
  plugin : Ctx → Option Plugin := fun _ => none
  loaded : ℕ := 0
  live : List Live := []
  objs : ℕ := 0
  /-- the Objecters the handles on the two notify chains of CCM point to -/
  viewChain : List Obj := []
  nodeChain : List Obj := []
  /-- the plug-ins DAS has a module of -/
  modules : List ℕ := []

/-! ## The functions -/

/-- What CCM answers. -/
structure CcmResults where
  bcmInit : ℤ
  registerView : ℤ
  registerNode : ℤ

inductive Act
  /-- `rc` is what `OpenRcacheCeateDasModule` returns -/
  | init (ctx : Ctx) (ccm : CcmResults) (rc : ℤ)
  | shutdown (obj : Obj)

section Functions

variable (conf : Ctx → Conf)

/-- `get_with_load`. -/
def getWithLoad (s : Process) (ctx : Ctx) : Plugin × Process :=
  match s.plugin ctx with
  | some p => (p, s)
  | none =>
    let p : Plugin := { id := s.loaded }
    (p, { s with plugin := Function.update s.plugin ctx (some p), loaded := s.loaded + 1 })

/-- Whether `init_mgr` returns `RET_OK`. -/
def initMgr (p : Plugin) (ccm : CcmResults) : Bool :=
  (p.initFlag || ccm.bcmInit = 0) && (ccm.registerView = 0 && ccm.registerNode = 0)

def dasInit (p : Plugin) (obj : Obj) (rc : ℤ) (modules : List ℕ) : Plugin × List ℕ :=
  let p := { p with dasObjs := p.dasObjs ++ [obj] }
  if p.initialized || rc ≠ 0 then (p, modules)
  else ({ p with initialized := true }, modules ++ [p.id])

/-- `das_init`, where the context has the option. -/
def startDas (ctx : Ctx) (p : Plugin) (obj : Obj) (rc : ℤ) (modules : List ℕ) :
    Plugin × List ℕ :=
  if (conf ctx).globalCache then dasInit p obj rc modules else (p, modules)

def dasRemove (p : Plugin) (obj : Obj) (modules : List ℕ) : Plugin × List ℕ :=
  let p := { p with dasObjs := p.dasObjs.filter (· ≠ obj) }
  if p.dasObjs.isEmpty && p.initialized then
    ({ p with initialized := false }, modules.filter (· ≠ p.id))
  else (p, modules)

/-- A chain without the handle of `obj`, if the plug-in knows it. -/
def ccmDeregister (p : Plugin) (obj : Obj) (chain : List Obj) : List Obj :=
  if obj ∈ p.registerObjs then chain.filter (· ≠ obj) else chain

/-- `Objecter::init` with the plug-in `p`. A failure of `init_mgr` ends the process. -/
def register (s : Process) (ctx : Ctx) (p : Plugin) (ccm : CcmResults) (rc : ℤ) : Option Process :=
  let s' := { s with live := s.live ++ [⟨s.objs, ctx, p.id⟩], objs := s.objs + 1 }
  if (conf ctx).gcBypass then some s'
  else if initMgr p ccm then
    let p := { p with initFlag := true, registerObjs := p.registerObjs ++ [s.objs] }
    some { s' with
      plugin := Function.update s.plugin ctx (some (startDas conf ctx p s.objs rc s.modules).1)
      viewChain := s.viewChain ++ [s.objs]
      nodeChain := s.nodeChain ++ [s.objs]
      modules := (startDas conf ctx p s.objs rc s.modules).2 }
  else none

/-- `Objecter::shutdown` of `e` with the plug-in `p`, and `reg->remove`. -/
def deregister (s : Process) (e : Live) (p : Plugin) : Process :=
  let s' := { s with
    plugin := Function.update s.plugin e.ctx none
    live := s.live.filter fun e' => e'.obj ≠ e.obj }
  if (conf e.ctx).gcBypass then s'
  else
    { s' with
      viewChain := ccmDeregister p e.obj s.viewChain
      nodeChain := ccmDeregister p e.obj s.nodeChain
      modules := (dasRemove p e.obj s.modules).2 }

/-- The Objecter that is initialised next. -/
def init (s : Process) (ctx : Ctx) (ccm : CcmResults) (rc : ℤ) : Option Process :=
  register conf (getWithLoad s ctx).2 ctx (getWithLoad s ctx).1 ccm rc

def shutdown (s : Process) (obj : Obj) : Option Process :=
  (s.live.find? fun e => e.obj = obj).map fun e =>
    deregister conf (getWithLoad s e.ctx).2 e (getWithLoad s e.ctx).1

def step (s : Process) : Act → Option Process
  | .init ctx ccm rc => init conf s ctx ccm rc
  | .shutdown obj => shutdown conf s obj

end Functions

/-! ## What holds in every state -/

/-- The Objecter is at work and the plug-in it has registered with is gone. -/
def Orphaned (s : Process) (e : Live) : Prop :=
  ∀ p, s.plugin e.ctx = some p → p.id ≠ e.plugin

structure Inv (conf : Ctx → Conf) (s : Process) : Prop where
  objs : (s.live.map (·.obj)).Nodup
  objsLt : ∀ e ∈ s.live, e.obj < s.objs
  chainLt : ∀ o ∈ s.viewChain, o < s.objs
  pluginLt : ∀ ctx p, s.plugin ctx = some p → p.id < s.loaded
  liveLt : ∀ e ∈ s.live, e.plugin < s.loaded
  moduleLt : ∀ m ∈ s.modules, m < s.loaded
  pluginInj : ∀ ctx ctx' p p', s.plugin ctx = some p → s.plugin ctx' = some p' → p.id = p'.id →
    ctx = ctx'
  liveCtx : ∀ e ∈ s.live, ∀ ctx p, s.plugin ctx = some p → p.id = e.plugin → ctx = e.ctx
  /-- a plug-in knows the Objecters at work that have registered with it -/
  registered : ∀ ctx p, s.plugin ctx = some p → ∀ o, o ∈ p.registerObjs ↔
    (conf ctx).gcBypass = false ∧ ∃ e ∈ s.live, e.obj = o ∧ e.plugin = p.id
  das : ∀ ctx p, s.plugin ctx = some p → ∀ o ∈ p.dasObjs, o ∈ p.registerObjs
  initialized : ∀ ctx p, s.plugin ctx = some p → (p.initialized = true ↔ p.id ∈ s.modules)
  initializedDas : ∀ ctx p, s.plugin ctx = some p → p.initialized = true → p.dasObjs ≠ []
  chains : s.nodeChain = s.viewChain
  /-- whoever is at work hears from CCM -/
  chained : ∀ e ∈ s.live, (conf e.ctx).gcBypass = false → e.obj ∈ s.viewChain
  bypassed : ∀ e ∈ s.live, (conf e.ctx).gcBypass = true → e.obj ∉ s.viewChain
  modules : s.modules.Nodup

section Invariant

variable {conf : Ctx → Conf} {s t : Process} {ctx : Ctx} {p : Plugin} {e e' : Live}

theorem Inv.start : Inv conf {} := by
  constructor <;> simp

theorem Inv.eq_of_obj (hi : Inv conf s) (he : e ∈ s.live) (he' : e' ∈ s.live)
    (h : e.obj = e'.obj) : e = e' :=
  List.inj_on_of_nodup_map hi.objs he he' h

theorem live_getWithLoad (s : Process) (ctx : Ctx) : (getWithLoad s ctx).2.live = s.live := by
  rw [getWithLoad]
  cases s.plugin ctx with
  | some p => rfl
  | none => rfl

/-- A new plug-in knows nobody. -/
theorem Inv.getWithLoad (hi : Inv conf s) (ctx : Ctx) :
    Inv conf (getWithLoad s ctx).2 ∧
      (getWithLoad s ctx).2.plugin ctx = some (getWithLoad s ctx).1 := by
  rw [PluginLifecycle.getWithLoad]
  cases hp : s.plugin ctx with
  | some p => exact ⟨hi, hp⟩
  | none =>
    have hplugin {c : Ctx} {q : Plugin}
        (h : Function.update s.plugin ctx (some { id := s.loaded }) c = some q) :
        c = ctx ∧ q = { id := s.loaded } ∨ c ≠ ctx ∧ s.plugin c = some q := by
      by_cases hc : c = ctx
      · subst hc
        rw [Function.update_self, Option.some.injEq] at h
        exact .inl ⟨rfl, h.symm⟩
      · rw [Function.update_of_ne hc] at h
        exact .inr ⟨hc, h⟩
    refine ⟨⟨hi.objs, hi.objsLt, hi.chainLt, fun c q h => ?_,
      fun e he => Nat.lt_succ_of_lt (hi.liveLt e he),
      fun m hm => Nat.lt_succ_of_lt (hi.moduleLt m hm), fun c c' q q' h h' hid => ?_,
      fun e he c q h hid => ?_, fun c q h o => ?_, fun c q h => ?_, fun c q h => ?_, fun c q h => ?_, hi.chains, hi.chained,
      hi.bypassed, hi.modules⟩, Function.update_self ..⟩
    · rcases hplugin h with ⟨-, rfl⟩ | ⟨-, hq⟩
      · exact Nat.lt_succ_self _
      · exact Nat.lt_succ_of_lt (hi.pluginLt c q hq)
    · rcases hplugin h with ⟨rfl, rfl⟩ | ⟨-, hq⟩
      · rcases hplugin h' with ⟨rfl, -⟩ | ⟨-, hq'⟩
        · rfl
        · exact absurd hid.symm (hi.pluginLt c' q' hq').ne
      · rcases hplugin h' with ⟨rfl, rfl⟩ | ⟨-, hq'⟩
        · exact absurd hid (hi.pluginLt c q hq).ne
        · exact hi.pluginInj c c' q q' hq hq' hid
    · rcases hplugin h with ⟨rfl, rfl⟩ | ⟨-, hq⟩
      · exact absurd hid.symm (hi.liveLt e he).ne
      · exact hi.liveCtx e he c q hq hid
    · rcases hplugin h with ⟨rfl, rfl⟩ | ⟨-, hq⟩
      · refine iff_of_false List.not_mem_nil ?_
        rintro ⟨-, e, he, -, hid⟩
        exact (hi.liveLt e he).ne hid
      · exact hi.registered c q hq o
    · rcases hplugin h with ⟨rfl, rfl⟩ | ⟨-, hq⟩
      · exact fun o ho => absurd ho List.not_mem_nil
      · exact hi.das c q hq
    · rcases hplugin h with ⟨rfl, rfl⟩ | ⟨-, hq⟩
      · refine iff_of_false (by simp) fun hmem => ?_
        exact (hi.moduleLt _ hmem).ne rfl
      · exact hi.initialized c q hq
    · rcases hplugin h with ⟨rfl, rfl⟩ | ⟨-, hq⟩
      · exact fun h => absurd h (by simp)
      · exact hi.initializedDas c q hq

/-- What a plug-in of another context is after an update. -/
theorem plugin_update_cases {c : Ctx} {q : Plugin} {o : Option Plugin}
    (h : Function.update s.plugin ctx o c = some q) :
    c = ctx ∧ o = some q ∨ c ≠ ctx ∧ s.plugin c = some q := by
  by_cases hc : c = ctx
  · subst hc
    rw [Function.update_self] at h
    exact .inl ⟨rfl, h⟩
  · rw [Function.update_of_ne hc] at h
    exact .inr ⟨hc, h⟩

/-- The next Objecter, and what its plug-in becomes. -/
theorem Inv.add (hi : Inv conf s) (hp : s.plugin ctx = some p) (p' : Plugin) (chain : List Obj)
    (modules : List ℕ) (hid : p'.id = p.id)
    (hreg : ∀ o, o ∈ p'.registerObjs ↔
      o ∈ p.registerObjs ∨ (conf ctx).gcBypass = false ∧ o = s.objs)
    (hchain : ∀ o, o ∈ chain ↔ o ∈ s.viewChain ∨ (conf ctx).gcBypass = false ∧ o = s.objs)
    (hdas : ∀ o ∈ p'.dasObjs, o ∈ p'.registerObjs)
    (hmodules : ∀ m, m ≠ p.id → (m ∈ modules ↔ m ∈ s.modules)) (hnodup : modules.Nodup)
    (hinit : p'.initialized = true ↔ p.id ∈ modules)
    (hinitDas : p'.initialized = true → p'.dasObjs ≠ []) :
    Inv conf { s with
      plugin := Function.update s.plugin ctx (some p')
      live := s.live ++ [⟨s.objs, ctx, p.id⟩]
      objs := s.objs + 1
      viewChain := chain
      nodeChain := chain
      modules := modules } := by
  have hplugin {c : Ctx} {q : Plugin}
      (h : Function.update s.plugin ctx (some p') c = some q) :
      c = ctx ∧ q = p' ∨ c ≠ ctx ∧ s.plugin c = some q :=
    (plugin_update_cases h).imp_left fun h => ⟨h.1, (Option.some.inj h.2).symm⟩
  have hne {c : Ctx} {q : Plugin} (hc : c ≠ ctx) (hq : s.plugin c = some q) : q.id ≠ p.id :=
    fun h => hc (hi.pluginInj c ctx q p hq hp h)
  have hmem {e : Live} : e ∈ s.live ++ [⟨s.objs, ctx, p.id⟩] ↔
      e ∈ s.live ∨ e = ⟨s.objs, ctx, p.id⟩ := by simp
  refine ⟨?_, fun e he => ?_, fun o ho => ?_, fun c q h => ?_, fun e he => ?_, fun m hm => ?_,
    fun c c' q q' h h' heq => ?_, fun e he c q h heq => ?_, fun c q h o => ?_, fun c q h => ?_,
    fun c q h => ?_, fun c q h => ?_, rfl, fun e he hconf => ?_, fun e he hconf => ?_, hnodup⟩
  · rw [List.map_append, List.nodup_append]
    refine ⟨hi.objs, by simp, fun o ho o' ho' => ?_⟩
    obtain ⟨e, he, rfl⟩ := List.mem_map.mp ho
    obtain rfl : o' = s.objs := by simpa using ho'
    exact (hi.objsLt e he).ne
  · rcases hmem.mp he with he | rfl
    · exact Nat.lt_succ_of_lt (hi.objsLt e he)
    · exact Nat.lt_succ_self _
  · rcases (hchain o).mp ho with ho | ⟨-, rfl⟩
    · exact Nat.lt_succ_of_lt (hi.chainLt o ho)
    · exact Nat.lt_succ_self _
  · rcases hplugin h with ⟨rfl, rfl⟩ | ⟨-, hq⟩
    · rw [hid]
      exact hi.pluginLt c p hp
    · exact hi.pluginLt c q hq
  · rcases hmem.mp he with he | rfl
    · exact hi.liveLt e he
    · exact hi.pluginLt ctx p hp
  · by_cases hmp : m = p.id
    · exact hmp ▸ hi.pluginLt ctx p hp
    · exact hi.moduleLt m ((hmodules m hmp).mp hm)
  · rcases hplugin h with ⟨rfl, rfl⟩ | ⟨hc, hq⟩
    · rcases hplugin h' with ⟨rfl, -⟩ | ⟨hc', hq'⟩
      · rfl
      · exact absurd (heq.symm.trans hid) (hne hc' hq')
    · rcases hplugin h' with ⟨rfl, rfl⟩ | ⟨hc', hq'⟩
      · exact absurd (heq.trans hid) (hne hc hq)
      · exact hi.pluginInj c c' q q' hq hq' heq
  · rcases hmem.mp he with he₀ | rfl
    · rcases hplugin h with ⟨rfl, rfl⟩ | ⟨-, hq⟩
      · exact hi.liveCtx e he₀ c p hp (hid.symm.trans heq)
      · exact hi.liveCtx e he₀ c q hq heq
    · rcases hplugin h with ⟨rfl, -⟩ | ⟨hc, hq⟩
      · rfl
      · exact absurd heq (hne hc hq)
  · rcases hplugin h with ⟨rfl, rfl⟩ | ⟨hc, hq⟩
    · rw [hreg, hi.registered c p hp, hid]
      simp only [hmem]
      constructor
      · rintro (⟨hconf, e, he, heq, hpl⟩ | ⟨hconf, rfl⟩)
        · exact ⟨hconf, e, .inl he, heq, hpl⟩
        · exact ⟨hconf, _, .inr rfl, rfl, rfl⟩
      · rintro ⟨hconf, e, he | rfl, heq, hpl⟩
        · exact .inl ⟨hconf, e, he, heq, hpl⟩
        · exact .inr ⟨hconf, heq.symm⟩
    · rw [hi.registered c q hq]
      simp only [hmem]
      refine and_congr_right fun _ => exists_congr fun e => ?_
      constructor
      · rintro ⟨he, h⟩
        exact ⟨.inl he, h⟩
      · rintro ⟨he | rfl, heq, hpl⟩
        · exact ⟨he, heq, hpl⟩
        · exact absurd hpl.symm (hne hc hq)
  · rcases hplugin h with ⟨rfl, rfl⟩ | ⟨-, hq⟩
    · exact hdas
    · exact hi.das c q hq
  · rcases hplugin h with ⟨rfl, rfl⟩ | ⟨hc, hq⟩
    · rwa [hid]
    · rw [hmodules q.id (hne hc hq)]
      exact hi.initialized c q hq
  · rcases hplugin h with ⟨rfl, rfl⟩ | ⟨-, hq⟩
    · exact hinitDas
    · exact hi.initializedDas c q hq
  · rw [hchain]
    rcases hmem.mp he with he | rfl
    · exact .inl (hi.chained e he hconf)
    · exact .inr ⟨hconf, rfl⟩
  · rw [hchain]
    rcases hmem.mp he with he | rfl
    · rintro (ho | ⟨-, ho⟩)
      · exact hi.bypassed e he hconf ho
      · exact (hi.objsLt e he).ne ho
    · rintro (ho | ⟨hconf', -⟩)
      · exact (hi.chainLt _ ho).ne rfl
      · rw [hconf] at hconf'
        contradiction

/-- A module of DAS is made for a plug-in that has none. -/
theorem dasInit_spec (hmodules : s.modules.Nodup) (hinit : p.initialized = true ↔ p.id ∈ s.modules)
    (o : Obj) (rc : ℤ) :
    (dasInit p o rc s.modules).1.id = p.id ∧
      (dasInit p o rc s.modules).1.registerObjs = p.registerObjs ∧
      (dasInit p o rc s.modules).1.dasObjs = p.dasObjs ++ [o] ∧
      (∀ m, m ≠ p.id → (m ∈ (dasInit p o rc s.modules).2 ↔ m ∈ s.modules)) ∧
      (dasInit p o rc s.modules).2.Nodup ∧
      ((dasInit p o rc s.modules).1.initialized = true ↔ p.id ∈ (dasInit p o rc s.modules).2) := by
  rw [dasInit]
  split_ifs with h
  · exact ⟨rfl, rfl, rfl, fun _ _ => Iff.rfl, hmodules, hinit⟩
  · obtain ⟨hnot, -⟩ : p.initialized = false ∧ rc = 0 := by simpa using h
    have hnew : p.id ∉ s.modules := fun hmem => by simp [hinit.mpr hmem] at hnot
    refine ⟨rfl, rfl, rfl, fun m hm => by simp [hm], ?_, by simp⟩
    rw [List.nodup_append]
    refine ⟨hmodules, by simp, fun m hm m' hm' heq => ?_⟩
    obtain rfl : m' = p.id := by simpa using hm'
    exact hnew (heq ▸ hm)

/-- What a plug-in that knows the Objecter becomes, and the modules. -/
theorem startDas_spec (conf : Ctx → Conf) (ctx : Ctx) (hmodules : s.modules.Nodup)
    (hinit : p.initialized = true ↔ p.id ∈ s.modules) (hne : p.initialized = true → p.dasObjs ≠ [])
    (o : Obj) (rc : ℤ) :
    (startDas conf ctx p o rc s.modules).1.id = p.id ∧
      (startDas conf ctx p o rc s.modules).1.registerObjs = p.registerObjs ∧
      (∀ o' ∈ (startDas conf ctx p o rc s.modules).1.dasObjs, o' ∈ p.dasObjs ∨ o' = o) ∧
      (∀ m, m ≠ p.id → (m ∈ (startDas conf ctx p o rc s.modules).2 ↔ m ∈ s.modules)) ∧
      (startDas conf ctx p o rc s.modules).2.Nodup ∧
      ((startDas conf ctx p o rc s.modules).1.initialized = true ↔
        p.id ∈ (startDas conf ctx p o rc s.modules).2) ∧
      ((startDas conf ctx p o rc s.modules).1.initialized = true →
        (startDas conf ctx p o rc s.modules).1.dasObjs ≠ []) := by
  rw [startDas]
  split_ifs with hcache
  · obtain ⟨hid, hreg, hdas, hmod, hnodup, hinit'⟩ := dasInit_spec hmodules hinit o rc
    exact ⟨hid, hreg, fun o' ho' => by simpa [hdas] using ho', hmod, hnodup, hinit',
      fun _ => by simp [hdas]⟩
  · exact ⟨rfl, rfl, fun _ => .inl, fun _ _ => Iff.rfl, hmodules, hinit, hne⟩

theorem Inv.register {ccm : CcmResults} {rc : ℤ} (hi : Inv conf s) (hp : s.plugin ctx = some p)
    (hstep : register conf s ctx p ccm rc = some t) : Inv conf t := by
  rw [PluginLifecycle.register] at hstep
  by_cases hconf : (conf ctx).gcBypass = true
  · rw [if_pos hconf] at hstep
    cases hstep
    have h := hi.add hp p s.viewChain s.modules rfl
      (by simp [hconf]) (by simp [hconf]) (hi.das ctx p hp) (fun _ _ => Iff.rfl) hi.modules
      (hi.initialized ctx p hp) (hi.initializedDas ctx p hp)
    rw [← hp, Function.update_eq_self] at h
    nth_rewrite 2 [← hi.chains] at h
    exact h
  · have hconf' : (conf ctx).gcBypass = false := by simpa using hconf
    rw [if_neg hconf] at hstep
    by_cases hmgr : initMgr p ccm = true
    case neg =>
      rw [if_neg hmgr] at hstep
      contradiction
    rw [if_pos hmgr] at hstep
    have hreg (o : Obj) : o ∈ p.registerObjs ++ [s.objs] ↔
        o ∈ p.registerObjs ∨ (conf ctx).gcBypass = false ∧ o = s.objs := by simp [hconf']
    have hchain (o : Obj) : o ∈ s.viewChain ++ [s.objs] ↔
        o ∈ s.viewChain ∨ (conf ctx).gcBypass = false ∧ o = s.objs := by simp [hconf']
    cases hstep
    rw [hi.chains]
    obtain ⟨hid, hobjs, hdas, hmodules, hnodup, hinit, hne⟩ := startDas_spec conf ctx
      (p := { p with initFlag := true, registerObjs := p.registerObjs ++ [s.objs] })
      hi.modules (hi.initialized ctx p hp) (hi.initializedDas ctx p hp) s.objs rc
    refine hi.add hp _ _ _ hid (fun o => by rw [hobjs]; exact hreg o) hchain (fun o ho => ?_)
      hmodules hnodup hinit hne
    rw [hobjs, hreg]
    rcases hdas o ho with ho | rfl
    · exact .inl (hi.das ctx p hp o ho)
    · exact .inr ⟨hconf', rfl⟩

/-- An Objecter goes, and with it the plug-in of its context. -/
theorem Inv.remove (hi : Inv conf s) (hp : s.plugin e.ctx = some p) (he : e ∈ s.live)
    (chain : List Obj) (modules : List ℕ)
    (hchain : ∀ o, o ≠ e.obj → (o ∈ chain ↔ o ∈ s.viewChain))
    (hmodules : ∀ m, m ≠ p.id → (m ∈ modules ↔ m ∈ s.modules)) (hsub : modules.Sublist s.modules) :
    Inv conf { s with
      plugin := Function.update s.plugin e.ctx none
      live := s.live.filter fun e' => e'.obj ≠ e.obj
      viewChain := chain
      nodeChain := chain
      modules := modules } := by
  have hplugin {c : Ctx} {q : Plugin} (h : Function.update s.plugin e.ctx none c = some q) :
      c ≠ e.ctx ∧ s.plugin c = some q := by
    rcases plugin_update_cases h with ⟨-, h⟩ | h
    · contradiction
    · exact h
  have hlive {e' : Live} (he' : e' ∈ s.live.filter fun e' => e'.obj ≠ e.obj) :
      e' ∈ s.live ∧ e'.obj ≠ e.obj := by simpa using he'
  have hne {c : Ctx} {q : Plugin} (hc : c ≠ e.ctx) (hq : s.plugin c = some q) : q.id ≠ p.id :=
    fun h => hc (hi.pluginInj c e.ctx q p hq hp h)
  refine ⟨hi.objs.sublist (List.filter_sublist.map _), fun e' he' => hi.objsLt e' (hlive he').1,
    fun o ho => ?_, fun c q h => hi.pluginLt c q (hplugin h).2,
    fun e' he' => hi.liveLt e' (hlive he').1, fun m hm => hi.moduleLt m (hsub.subset hm),
    fun c c' q q' h h' => hi.pluginInj c c' q q' (hplugin h).2 (hplugin h').2,
    fun e' he' c q h => hi.liveCtx e' (hlive he').1 c q (hplugin h).2, fun c q h o => ?_,
    fun c q h => hi.das c q (hplugin h).2, fun c q h => ?_,
    fun c q h => hi.initializedDas c q (hplugin h).2, rfl, fun e' he' hconf => ?_,
    fun e' he' hconf => ?_, hi.modules.sublist hsub⟩
  · by_cases hoe : o = e.obj
    · exact hoe ▸ hi.objsLt e he
    · exact hi.chainLt o ((hchain o hoe).mp ho)
  · obtain ⟨hc, hq⟩ := hplugin h
    rw [hi.registered c q hq]
    refine and_congr_right fun _ => exists_congr fun e' => ?_
    rw [List.mem_filter]
    constructor
    · rintro ⟨he', heq, hpl⟩
      refine ⟨⟨he', decide_eq_true fun hobj => hc ?_⟩, heq, hpl⟩
      rw [hi.liveCtx e' he' c q hq hpl.symm, hi.eq_of_obj he' he hobj]
    · rintro ⟨⟨he', -⟩, h⟩
      exact ⟨he', h⟩
  · obtain ⟨hc, hq⟩ := hplugin h
    rw [hmodules q.id (hne hc hq)]
    exact hi.initialized c q hq
  · obtain ⟨hmem, hobj⟩ := hlive he'
    exact (hchain e'.obj hobj).mpr (hi.chained e' hmem hconf)
  · obtain ⟨hmem, hobj⟩ := hlive he'
    exact fun ho => hi.bypassed e' hmem hconf ((hchain e'.obj hobj).mp ho)

theorem mem_of_find {o : Obj} (h : s.live.find? (fun e' => e'.obj = o) = some e) :
    e ∈ s.live ∧ e.obj = o :=
  ⟨List.mem_of_find?_eq_some h, by simpa using List.find?_some h⟩

theorem mem_ccmDeregister {o o' : Obj} {chain : List Obj} (h : o' ≠ o) :
    o' ∈ ccmDeregister p o chain ↔ o' ∈ chain := by
  rw [ccmDeregister]
  split_ifs
  · simp [h]
  · rfl

theorem dasRemove_modules (p : Plugin) (o : Obj) (modules : List ℕ) :
    (dasRemove p o modules).2.Sublist modules ∧
      ∀ m, m ≠ p.id → (m ∈ (dasRemove p o modules).2 ↔ m ∈ modules) := by
  simp only [dasRemove]
  split_ifs
  · exact ⟨List.filter_sublist, fun m hm => by simp [hm]⟩
  · exact ⟨List.Sublist.refl _, fun _ _ => Iff.rfl⟩

theorem Inv.deregister (hi : Inv conf s) (hp : s.plugin e.ctx = some p) (he : e ∈ s.live) :
    Inv conf (deregister conf s e p) := by
  rw [PluginLifecycle.deregister]
  by_cases hconf : (conf e.ctx).gcBypass = true
  · rw [if_pos hconf]
    have h := hi.remove hp he s.viewChain s.modules (fun _ _ => Iff.rfl) (fun _ _ => Iff.rfl)
      (List.Sublist.refl _)
    nth_rewrite 2 [← hi.chains] at h
    exact h
  · rw [if_neg hconf]
    obtain ⟨hsub, hmodules⟩ := dasRemove_modules p e.obj s.modules
    rw [hi.chains]
    exact hi.remove hp he _ _ (fun o ho => mem_ccmDeregister ho) hmodules hsub

theorem shutdown_eq_some {o : Obj} (hstep : shutdown conf s o = some t) :
    ∃ e ∈ s.live, e.obj = o ∧
      t = PluginLifecycle.deregister conf (getWithLoad s e.ctx).2 e (getWithLoad s e.ctx).1 := by
  obtain ⟨e, hfind, rfl⟩ := Option.map_eq_some_iff.mp hstep
  obtain ⟨he, ho⟩ := mem_of_find hfind
  exact ⟨e, he, ho, rfl⟩

theorem Inv.step {a : Act} (hi : Inv conf s) (hstep : step conf s a = some t) : Inv conf t := by
  cases a with
  | init ctx ccm rc =>
    obtain ⟨hi', hp⟩ := hi.getWithLoad ctx
    exact hi'.register hp hstep
  | shutdown o =>
    obtain ⟨e, he, -, rfl⟩ := shutdown_eq_some hstep
    obtain ⟨hi', hp⟩ := hi.getWithLoad e.ctx
    exact hi'.deregister hp (by rwa [live_getWithLoad])

theorem inv_of_reach (hreach : Reach (PluginLifecycle.step conf) Free {} s) : Inv conf s :=
  hreach.invariant .start fun _ _ _ hi _ hstep => hi.step hstep

end Invariant

/-! ## Callbacks -/

section Callbacks

variable {conf : Ctx → Conf} {s t : Process} {as : List Act} {o : Obj}

/-- Every Objecter CCM can call is at work. -/
def Callable (s : Process) : Prop := ∀ o ∈ s.viewChain ++ s.nodeChain, ∃ e ∈ s.live, e.obj = o

instance (s : Process) : Decidable (Callable s) := by
  unfold Callable
  infer_instance

/-- Every module of DAS is that of a plug-in that is loaded. -/
def ModulesLoaded (s : Process) : Prop := ∀ m ∈ s.modules, ∃ ctx p, s.plugin ctx = some p ∧ p.id = m

/-- An Objecter that has registered with CCM is shut down while its plug-in is there. -/
def Registered (conf : Ctx → Conf) (s : Process) : Act → Prop
  | .init .. => True
  | .shutdown o => ∀ e ∈ s.live, e.obj = o → (conf e.ctx).gcBypass = false → ¬ Orphaned s e

/-- No other Objecter prefetches through the plug-in that goes with this one. -/
def LastPrefetcher (s : Process) : Act → Prop
  | .init .. => True
  | .shutdown o => ∀ e ∈ s.live, e.obj = o → ∀ p, s.plugin e.ctx = some p → p.initialized = true →
    ∀ o' ∈ p.dasObjs, o' = o

theorem callable_iff (hi : Inv conf s) :
    Callable s ↔ ∀ o ∈ s.viewChain, ∃ e ∈ s.live, e.obj = o := by
  rw [Callable, hi.chains]
  simp only [List.mem_append, or_self]

theorem callable_getWithLoad (ctx : Ctx) : Callable (getWithLoad s ctx).2 ↔ Callable s := by
  rw [getWithLoad]
  cases s.plugin ctx with
  | some p => rfl
  | none => rfl

/-- A plug-in that is loaded now is not the one an Objecter at work has registered with. -/
theorem orphaned_getWithLoad {e : Live} (hi : Inv conf s) (he : e ∈ s.live) (ctx : Ctx) :
    Orphaned (getWithLoad s ctx).2 e ↔ Orphaned s e := by
  rw [getWithLoad]
  cases hp : s.plugin ctx with
  | some p => rfl
  | none =>
    by_cases hctx : e.ctx = ctx
    · refine iff_of_true (fun p h => ?_) fun p h => ?_
      · rcases plugin_update_cases h with ⟨-, h⟩ | ⟨hne, -⟩
        · rw [← Option.some.inj h]
          exact (hi.liveLt e he).ne'
        · exact absurd hctx hne
      · rw [hctx, hp] at h
        contradiction
    · simp only [Orphaned, Function.update_of_ne hctx]

theorem modulesLoaded_getWithLoad (hi : Inv conf s) (ctx : Ctx) :
    ModulesLoaded (getWithLoad s ctx).2 ↔ ModulesLoaded s := by
  rw [getWithLoad]
  cases hp : s.plugin ctx with
  | some p => rfl
  | none =>
    refine forall₂_congr fun m hm => ⟨?_, ?_⟩
    · rintro ⟨c, q, hq, rfl⟩
      rcases plugin_update_cases hq with ⟨-, h⟩ | ⟨-, hq⟩
      · have hlt := hi.moduleLt q.id hm
        rw [← Option.some.inj h] at hlt
        exact absurd hlt (lt_irrefl _)
      · exact ⟨c, q, hq, rfl⟩
    · rintro ⟨c, q, hq, rfl⟩
      have hc : c ≠ ctx := fun h => by simp [← h, hq] at hp
      exact ⟨c, q, (Function.update_of_ne hc ..).trans hq, rfl⟩

variable {ctx : Ctx} {p : Plugin} {e : Live}

theorem callable_register {ccm : CcmResults} {rc : ℤ} (hi : Inv conf s)
    (hp : s.plugin ctx = some p) (hstep : register conf s ctx p ccm rc = some t) :
    Callable t ↔ Callable s := by
  rw [callable_iff (hi.register hp hstep), callable_iff hi]
  rw [register] at hstep
  -- whether the chains get the new Objecter or not, it is at work
  have hkeep (chain : List Obj) (hsub : ∀ o ∈ s.viewChain, o ∈ chain)
      (hnew : ∀ o ∈ chain, o ∈ s.viewChain ∨ o = s.objs) :
      (∀ o ∈ chain, ∃ e ∈ s.live ++ [⟨s.objs, ctx, p.id⟩], e.obj = o) ↔
        ∀ o ∈ s.viewChain, ∃ e ∈ s.live, e.obj = o := by
    constructor
    · intro h o ho
      obtain ⟨e, he, rfl⟩ := h o (hsub o ho)
      rcases List.mem_append.mp he with he | he
      · exact ⟨e, he, rfl⟩
      · obtain rfl := List.mem_singleton.mp he
        exact absurd (hi.chainLt _ ho) (lt_irrefl _)
    · intro h o ho
      rcases hnew o ho with ho | rfl
      · obtain ⟨e, he, rfl⟩ := h o ho
        exact ⟨e, List.mem_append_left _ he, rfl⟩
      · exact ⟨_, List.mem_append_right _ (List.mem_singleton.mpr rfl), rfl⟩
  by_cases hconf : (conf ctx).gcBypass = true
  · rw [if_pos hconf] at hstep
    cases hstep
    exact hkeep _ (fun o ho => ho) fun o ho => .inl ho
  · rw [if_neg hconf] at hstep
    by_cases hmgr : initMgr p ccm = true
    · rw [if_pos hmgr] at hstep
      cases hstep
      exact hkeep _ (fun o ho => List.mem_append_left _ ho) fun o ho => by simpa using ho
    · rw [if_neg hmgr] at hstep
      contradiction

/-- The handles of an Objecter go with it exactly if its plug-in knows it. -/
theorem callable_deregister (hi : Inv conf s) (hp : s.plugin e.ctx = some p) (he : e ∈ s.live) :
    Callable (deregister conf s e p) ↔
      Callable s ∧ ((conf e.ctx).gcBypass = false → ¬ Orphaned s e) := by
  rw [callable_iff (hi.deregister hp he), callable_iff hi]
  have hknown : e.obj ∈ p.registerObjs ↔ (conf e.ctx).gcBypass = false ∧ ¬ Orphaned s e := by
    rw [hi.registered e.ctx p hp]
    refine and_congr_right fun _ => ⟨?_, fun h => ?_⟩
    · rintro ⟨e', he', hobj, hpl⟩ horphaned
      rw [hi.eq_of_obj he' he hobj] at hpl
      exact horphaned p hp hpl.symm
    · rw [Orphaned, not_forall] at h
      obtain ⟨q, h⟩ := h
      obtain ⟨hq, hid⟩ := Classical.not_imp.mp h
      rw [hp, Option.some.injEq] at hq
      exact ⟨e, he, rfl, by rw [hq, not_not.mp hid]⟩
  -- the others are at work after the call if they were before
  have hothers (chain : List Obj) (hsame : ∀ o, o ≠ e.obj → (o ∈ chain ↔ o ∈ s.viewChain)) :
      (∀ o ∈ chain, ∃ e' ∈ s.live.filter fun e' => e'.obj ≠ e.obj, e'.obj = o) ↔
        (∀ o ∈ s.viewChain, ∃ e' ∈ s.live, e'.obj = o) ∧ e.obj ∉ chain := by
    constructor
    · intro h
      have hgone : e.obj ∉ chain := fun hmem => by
        obtain ⟨e', he', hobj⟩ := h _ hmem
        exact absurd hobj (by simpa using (List.mem_filter.mp he').2)
      refine ⟨fun o ho => ?_, hgone⟩
      by_cases hoe : o = e.obj
      · exact ⟨e, he, hoe.symm⟩
      · obtain ⟨e', he', hobj⟩ := h o ((hsame o hoe).mpr ho)
        exact ⟨e', (List.mem_filter.mp he').1, hobj⟩
    · rintro ⟨h, hgone⟩ o ho
      have hoe : o ≠ e.obj := fun heq => hgone (heq ▸ ho)
      obtain ⟨e', he', rfl⟩ := h o ((hsame o hoe).mp ho)
      exact ⟨e', List.mem_filter.mpr ⟨he', decide_eq_true hoe⟩, rfl⟩
  rw [deregister]
  by_cases hconf : (conf e.ctx).gcBypass = true
  · rw [if_pos hconf]
    refine (hothers s.viewChain fun _ _ => Iff.rfl).trans (and_congr_right fun _ => ?_)
    exact iff_of_true (hi.bypassed e he hconf) fun h => by simp [hconf] at h
  · rw [if_neg hconf]
    have hconf' : (conf e.ctx).gcBypass = false := by simpa using hconf
    refine (hothers _ fun o ho => mem_ccmDeregister ho).trans (and_congr_right fun _ => ?_)
    rw [ccmDeregister]
    split_ifs with hmem
    · refine iff_of_true (by simp) fun _ => (hknown.mp hmem).2
    · refine iff_of_false (not_not.mpr (hi.chained e he hconf')) fun h => hmem ?_
      exact hknown.mpr ⟨hconf', h hconf'⟩

theorem callable_step {a : Act} (hi : Inv conf s) (hstep : step conf s a = some t) :
    Callable t ↔ Callable s ∧ Registered conf s a := by
  cases a with
  | init ctx ccm rc =>
    obtain ⟨hi', hp⟩ := hi.getWithLoad ctx
    rw [callable_register hi' hp hstep, callable_getWithLoad]
    exact (and_iff_left trivial).symm
  | shutdown o =>
    obtain ⟨e, he, rfl, rfl⟩ := shutdown_eq_some hstep
    obtain ⟨hi', hp⟩ := hi.getWithLoad e.ctx
    rw [callable_deregister hi' hp (by rwa [live_getWithLoad]), callable_getWithLoad,
      orphaned_getWithLoad hi he]
    refine and_congr_right fun _ => ⟨fun h e' he' hobj => ?_, fun h => h e he rfl⟩
    rwa [hi.eq_of_obj he' he hobj]

/-- The module of a plug-in goes with it exactly if nobody else prefetches through it. -/
theorem modulesLoaded_deregister (hi : Inv conf s) (hp : s.plugin e.ctx = some p) :
    ModulesLoaded (deregister conf s e p) ↔
      ModulesLoaded s ∧ (p.initialized = true → ∀ o' ∈ p.dasObjs, o' = e.obj) := by
  -- nothing else changes for the modules of other plug-ins
  have hothers (modules : List ℕ)
      (hsame : ∀ m, m ≠ p.id → (m ∈ modules ↔ m ∈ s.modules)) :
      (∀ m ∈ modules, ∃ c q, Function.update s.plugin e.ctx none c = some q ∧ q.id = m) ↔
        (∀ m ∈ s.modules, ∃ c q, s.plugin c = some q ∧ q.id = m) ∧ p.id ∉ modules := by
    constructor
    · intro h
      have hgone : p.id ∉ modules := fun hmem => by
        obtain ⟨c, q, hq, hid⟩ := h _ hmem
        rcases plugin_update_cases hq with ⟨-, h⟩ | ⟨hc, hq⟩
        · contradiction
        · exact hc (hi.pluginInj c e.ctx q p hq hp hid)
      refine ⟨fun m hm => ?_, hgone⟩
      by_cases hmp : m = p.id
      · exact ⟨e.ctx, p, hp, hmp.symm⟩
      · obtain ⟨c, q, hq, hid⟩ := h m ((hsame m hmp).mpr hm)
        rcases plugin_update_cases hq with ⟨-, h⟩ | ⟨-, hq⟩
        · contradiction
        · exact ⟨c, q, hq, hid⟩
    · rintro ⟨h, hgone⟩ m hm
      have hmp : m ≠ p.id := fun heq => hgone (heq ▸ hm)
      obtain ⟨c, q, hq, rfl⟩ := h m ((hsame m hmp).mp hm)
      have hc : c ≠ e.ctx := fun heq => by
        rw [heq, hp, Option.some.injEq] at hq
        exact hmp (congrArg Plugin.id hq.symm)
      exact ⟨c, q, (Function.update_of_ne hc ..).trans hq, rfl⟩
  rw [deregister]
  by_cases hconf : (conf e.ctx).gcBypass = true
  · rw [if_pos hconf]
    refine (hothers s.modules fun _ _ => Iff.rfl).trans (and_congr_right fun _ => ?_)
    have hnone : p.dasObjs = [] := List.eq_nil_iff_forall_not_mem.mpr fun o ho => by
      have h := ((hi.registered e.ctx p hp o).mp (hi.das e.ctx p hp o ho)).1
      rw [hconf] at h
      contradiction
    have hinit : ¬ p.initialized = true := fun h => hi.initializedDas e.ctx p hp h hnone
    exact iff_of_true (fun h => hinit ((hi.initialized e.ctx p hp).mpr h)) fun h => absurd h hinit
  · rw [if_neg hconf]
    refine (hothers _ (dasRemove_modules p e.obj s.modules).2).trans (and_congr_right fun _ => ?_)
    simp only [dasRemove]
    split_ifs with h
    · obtain ⟨hempty, -⟩ := Bool.and_eq_true_iff.mp h
      rw [List.isEmpty_iff, List.filter_eq_nil_iff] at hempty
      refine iff_of_true (by simp) fun _ o' ho' => by simpa using hempty o' ho'
    · rw [← hi.initialized e.ctx p hp]
      constructor
      · exact fun hinit h' => absurd h' hinit
      · intro hall hinit
        refine h (Bool.and_eq_true_iff.mpr ⟨?_, hinit⟩)
        rw [List.isEmpty_iff, List.filter_eq_nil_iff]
        exact fun o' ho' => by simpa using hall hinit o' ho'

theorem modulesLoaded_register {ccm : CcmResults} {rc : ℤ} (hi : Inv conf s)
    (hp : s.plugin ctx = some p) (hstep : register conf s ctx p ccm rc = some t) :
    ModulesLoaded t ↔ ModulesLoaded s := by
  rw [register] at hstep
  by_cases hconf : (conf ctx).gcBypass = true
  · rw [if_pos hconf] at hstep
    cases hstep
    rfl
  · rw [if_neg hconf] at hstep
    by_cases hmgr : initMgr p ccm = true
    case neg =>
      rw [if_neg hmgr] at hstep
      contradiction
    rw [if_pos hmgr] at hstep
    cases hstep
    obtain ⟨hid, -, -, hmodules, -, -, -⟩ := startDas_spec conf ctx
      (p := { p with initFlag := true, registerObjs := p.registerObjs ++ [s.objs] })
      hi.modules (hi.initialized ctx p hp) (hi.initializedDas ctx p hp) s.objs rc
    generalize startDas conf ctx { p with
      initFlag := true, registerObjs := p.registerObjs ++ [s.objs] } s.objs rc s.modules = d
      at hid hmodules
    -- a plug-in keeps its number
    have hloaded (m : ℕ) :
        (∃ c q, Function.update s.plugin ctx (some d.1) c = some q ∧ q.id = m) ↔
          ∃ c q, s.plugin c = some q ∧ q.id = m := by
      constructor
      · rintro ⟨c, q, hq, rfl⟩
        rcases plugin_update_cases hq with ⟨rfl, h⟩ | ⟨-, hq⟩
        · exact ⟨c, p, hp, by rw [← Option.some.inj h, hid]⟩
        · exact ⟨c, q, hq, rfl⟩
      · rintro ⟨c, q, hq, rfl⟩
        by_cases hc : c = ctx
        · refine ⟨c, d.1, by rw [hc, Function.update_self], ?_⟩
          rw [hc, hp, Option.some.injEq] at hq
          rw [hid, ← hq]
        · exact ⟨c, q, (Function.update_of_ne hc ..).trans hq, rfl⟩
    have hself : ∃ c q, s.plugin c = some q ∧ q.id = p.id := ⟨ctx, p, hp, rfl⟩
    simp only [ModulesLoaded, hloaded]
    constructor
    · intro h m hm
      by_cases hmp : m = p.id
      · exact hmp ▸ hself
      · exact h m ((hmodules m hmp).mpr hm)
    · intro h m hm
      by_cases hmp : m = p.id
      · exact hmp ▸ hself
      · exact h m ((hmodules m hmp).mp hm)

theorem modulesLoaded_step {a : Act} (hi : Inv conf s) (hstep : step conf s a = some t) :
    ModulesLoaded t ↔ ModulesLoaded s ∧ LastPrefetcher s a := by
  cases a with
  | init ctx ccm rc =>
    obtain ⟨hi', hp⟩ := hi.getWithLoad ctx
    rw [modulesLoaded_register hi' hp hstep, modulesLoaded_getWithLoad hi]
    exact (and_iff_left trivial).symm
  | shutdown o =>
    obtain ⟨e, he, rfl, rfl⟩ := shutdown_eq_some hstep
    obtain ⟨hi', hp⟩ := hi.getWithLoad e.ctx
    rw [modulesLoaded_deregister hi' hp, modulesLoaded_getWithLoad hi]
    refine and_congr_right fun _ => ?_
    have hunique : LastPrefetcher s (.shutdown e.obj) ↔ ∀ p, s.plugin e.ctx = some p →
        p.initialized = true → ∀ o' ∈ p.dasObjs, o' = e.obj := by
      refine ⟨fun h => h e he rfl, fun h e' he' hobj => ?_⟩
      rwa [hi.eq_of_obj he' he hobj]
    rw [hunique, getWithLoad]
    cases hplugin : s.plugin e.ctx with
    | some p => simp
    | none => simp

/-- **Who CCM calls.** At the end of a run of `init` and `shutdown` in any contexts and any order,
every Objecter on the notify chains is at work if and only if none that had registered has been
shut down without the plug-in it had registered with: after another Objecter of the context, which
took the plug-in with it. -/
theorem callable_run_iff (hrun : run (step conf) {} as = some s) :
    Callable s ↔ ForallSteps (step conf) (Registered conf) {} as := by
  rw [forallSteps_iff (fun _ _ _ hi hstep => hi.step hstep)
    (fun _ _ _ hi hstep => callable_step hi hstep) hrun Inv.start]
  exact and_iff_right (by simp [Callable])

/-- Contexts with Global Cache and prefetch. -/
def prefetching (_ : Ctx) : Conf := ⟨false, true⟩

/-- Two Objecters with overlapping lives, in two contexts. -/
def apart : List Act := [.init 0 ⟨0, 0, 0⟩ 0, .init 1 ⟨0, 0, 0⟩ 0, .shutdown 0, .shutdown 1]

/-- The same in one context. -/
def together : List Act := [.init 0 ⟨0, 0, 0⟩ 0, .init 0 ⟨0, 0, 0⟩ 0, .shutdown 0, .shutdown 1]

theorem callable_run_iff_examples :
    ForallSteps (step prefetching) (Registered prefetching) {} apart ∧
      ¬ ForallSteps (step prefetching) (Registered prefetching) {} together := by
  have hcallable (as : List Act) (b : Bool)
      (h : (run (step prefetching) {} as).any (fun s => decide (Callable s) == b) = true) :
      ForallSteps (step prefetching) (Registered prefetching) {} as ↔ b = true := by
    obtain ⟨s, hrun, hs⟩ := (Option.any_eq_true _ _).mp h
    rw [← callable_run_iff hrun, ← eq_of_beq hs, decide_eq_true_eq]
  exact ⟨(hcallable apart true (by decide)).mpr rfl,
    fun h => by simpa using (hcallable together false (by decide)).mp h⟩

/-- **Whose modules DAS has.** At the end of a run every module of DAS is that of a plug-in that is
loaded if and only if no Objecter has been shut down while another one prefetched through its
plug-in. -/
theorem modulesLoaded_run_iff (hrun : run (step conf) {} as = some s) :
    ModulesLoaded s ↔ ForallSteps (step conf) LastPrefetcher {} as := by
  rw [forallSteps_iff (fun _ _ _ hi hstep => hi.step hstep)
    (fun _ _ _ hi hstep => modulesLoaded_step hi hstep) hrun Inv.start]
  exact and_iff_right (by simp [ModulesLoaded])

theorem modulesLoaded_run_iff_apart :
    ForallSteps (step prefetching) LastPrefetcher {} apart := by
  have h : (run (step prefetching) {} apart).any (fun s => s.modules.isEmpty) = true := by decide
  obtain ⟨s, hrun, hs⟩ := (Option.any_eq_true _ _).mp h
  refine (modulesLoaded_run_iff hrun).mp fun m hm => ?_
  rw [List.isEmpty_iff.mp hs] at hm
  contradiction

/-- **What a plug-in answers to.** In every state, an Objecter at work that does not bypass Global
Cache is on both notify chains, also when its plug-in is gone, and a prefetch that a plug-in
accepts (`is_valid_object`) is for an Objecter at work that has registered with this very
plug-in. -/
theorem chained_and_valid (hreach : Reach (step conf) Free {} s) :
    (∀ e ∈ s.live, (conf e.ctx).gcBypass = false → e.obj ∈ s.viewChain ∧ e.obj ∈ s.nodeChain) ∧
      ∀ ctx p, s.plugin ctx = some p → ∀ o ∈ p.dasObjs,
        ∃ e ∈ s.live, e.obj = o ∧ e.ctx = ctx ∧ ¬ Orphaned s e := by
  have hi := inv_of_reach hreach
  refine ⟨fun e he hconf => ?_, fun ctx p hp o ho => ?_⟩
  · rw [hi.chains]
    exact ⟨hi.chained e he hconf, hi.chained e he hconf⟩
  · obtain ⟨-, e, he, hobj, hpl⟩ := (hi.registered ctx p hp o).mp (hi.das ctx p hp o ho)
    have hctx := hi.liveCtx e he ctx p hp hpl.symm
    exact ⟨e, he, hobj, hctx.symm, fun h => h p (hctx ▸ hp) hpl.symm⟩

/-- The first Objecter is gone, and CCM still calls the second one. -/
theorem chained_and_valid_together :
    ∃ s, Reach (step prefetching) Free {} s ∧ s.plugin 0 = none ∧ 1 ∈ s.viewChain := by
  obtain ⟨s, hreach, hp⟩ := exists_reach_of_run (step prefetching) Free {} (together.take 3)
    (fun s => s.live.any (fun e => e.obj = 1 && !(prefetching e.ctx).gcBypass) &&
      (s.plugin 0).isNone)
    (by decide) fun _ _ _ => trivial
  obtain ⟨hlive, hnone⟩ := Bool.and_eq_true_iff.mp hp
  obtain ⟨e, he, h⟩ := List.any_eq_true.mp hlive
  have hobj : e.obj = 1 := by simpa using (Bool.and_eq_true_iff.mp h).1
  refine ⟨s, hreach, Option.isNone_iff_eq_none.mp hnone, ?_⟩
  exact hobj ▸ ((chained_and_valid hreach).1 e he rfl).1

end Callbacks

end GcAdaptor.PluginLifecycle
