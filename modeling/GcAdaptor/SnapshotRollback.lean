/-
Rolling a snapshot back with the global cache: the `gc` part of `SnapshotRollbackRequest`
(`patch/ceph-global-cache.patch`).

The request makes two temporary snapshots, asks the cache to roll back between them and goes on
to `send_refresh_object_map`. Where a step fails it removes the snapshots it has made and
completes with the first error. Its progress is in the names of the two: they are set when a
creation is sent, and are cleared one by one on the way back.

A request is a state with at most one callback outstanding, and `step` is the callback. What the
calls return is given by an `Env`; `errors`, `created` and `removeFailed` record what has
happened. After `rounds` callbacks there is none left, and `rollback_cleansUp_iff` says when the
snapshots are gone: not if the plugin is found for the first of them and not for the second,
where the request completes at once.
-/
import GcAdaptor.Cxx
import Mathlib.Logic.Function.Iterate

set_option autoImplicit false

namespace GcAdaptor.SnapshotRollback

open GcAdaptor.Wire (Bytes)
open GcAdaptor.Cxx

/-! ## The request -/

def ELIBACC : ℤ := 79

def GC_SNAP_PREFIX : Bytes := ascii ['g', 'c', '_']

/-- `extra` is random and `timepoint` the clock. -/
def genRandomGcSnap (extra snapId num timepoint : ℕ) : Bytes :=
  GC_SNAP_PREFIX ++ toDecimal extra ++ ascii ['_'] ++ toDecimal snapId ++ ascii ['_'] ++
    toDecimal num ++ ascii ['_'] ++ toDecimal timepoint

/-- The result of a snapshot operation. One that fails may have changed the image or not. -/
structure OpResult where
  result : ℤ
  changed : Bool := false

/-- What the calls of one request return. -/
structure Env where
  snapId : ℕ := 0
  extra : ℕ → ℕ := fun _ => 0
  timepoint : ℕ → ℕ := fun _ => 0
  /-- the plugin lookup of `send_gc_snap_create(num)` -/
  pluginForCreate : ℕ → Bool := fun _ => true
  /-- the creation of temporary snapshot `num` -/
  create : ℕ → OpResult := fun _ => ⟨0, true⟩
  /-- the plugin lookup of `handle_send_gc_rollback` -/
  pluginForRollback : Bool := true
  rollbackGcSnap : ℤ := 0
  /-- the removals, in order from 1 -/
  remove : ℕ → OpResult := fun _ => ⟨0, true⟩

def Env.snapName (env : Env) (num : ℕ) : Bytes :=
  genRandomGcSnap (env.extra num) env.snapId num (env.timepoint num)

/-- `mgr_ret` of `handle_send_gc_rollback` -/
def Env.mgrRet (env : Env) : ℤ := if env.pluginForRollback then env.rollbackGcSnap else -ELIBACC

/-- How the part for the global cache ends. -/
inductive End
  | complete (r : ℤ)
  | refreshObjectMap
  /-- `ceph_assert` in `handle_send_gc_rollback` -/
  | assertFailed
  deriving DecidableEq

inductive Callback
  | gcSnapCreate (num : ℕ) (name : Bytes)
  | gcSnapRemove (name : Bytes)
  | gcRollback
  deriving DecidableEq

structure Request where
  /-- the names of the snapshots on the image -/
  snaps : List Bytes
  gcSnapName1 : Bytes := []
  gcSnapName2 : Bytes := []
  retVal : ℤ := 0
  pending : Option Callback := none
  ends : List End := []
  errors : List ℤ := []
  created : List Bytes := []
  removals : ℕ := 0
  removeFailed : Bool := false
  deriving DecidableEq

section Handlers

variable (env : Env)

def complete (r : ℤ) (s : Request) : Request := { s with ends := s.ends ++ [.complete r] }

def saveResult (result : ℤ) (s : Request) : Request :=
  if s.retVal = 0 ∧ result < 0 then { s with retVal := result } else s

/-- An error that has occurred. -/
def noteError (result : ℤ) (s : Request) : Request :=
  if result < 0 then { s with errors := s.errors ++ [result] } else s

def sendGcSnapCreate (num : ℕ) (s : Request) : Request :=
  if env.pluginForCreate num then
    let snapName := env.snapName num
    let s :=
      if num = 1 then { s with gcSnapName1 := snapName } else { s with gcSnapName2 := snapName }
    { s with pending := some (.gcSnapCreate num snapName), created := s.created ++ [snapName] }
  else complete (-ELIBACC) (noteError (-ELIBACC) s)

/-- `get_snap_id` finds a snapshot by its name. -/
def sendGcSnapRemove (s : Request) : Request :=
  let (snapName, s) :=
    if s.gcSnapName1 ≠ [] then (s.gcSnapName1, { s with gcSnapName1 := [] })
    else (s.gcSnapName2, { s with gcSnapName2 := [] })
  if snapName = [] then complete s.retVal s
  else if snapName ∉ s.snaps then complete s.retVal s
  else { s with pending := some (.gcSnapRemove snapName), removals := s.removals + 1 }

def sendGcRollback (s : Request) : Request := { s with pending := some .gcRollback }

def handleSendGcSnapCreate (result : ℤ) (s : Request) : Request :=
  if result < 0 then sendGcSnapRemove (saveResult result s)
  else if s.gcSnapName2 = [] then sendGcSnapCreate env 2 s
  else sendGcRollback s

def handleSendGcSnapRemove (result : ℤ) (s : Request) : Request :=
  if result < 0 then complete s.retVal s else sendGcSnapRemove s

def handleSendGcRollback (s : Request) : Request :=
  if s.gcSnapName1 ∈ s.snaps ∧ s.gcSnapName2 ∈ s.snaps then
    let s := noteError env.mgrRet s
    if env.mgrRet < 0 then sendGcSnapRemove (saveResult env.mgrRet s)
    else { s with ends := s.ends ++ [.refreshObjectMap] }
  else { s with ends := s.ends ++ [.assertFailed] }

/-- What an operation that has returned has done to the image. -/
def OpResult.applies (r : OpResult) : Bool := 0 ≤ r.result || r.changed

/-- The outstanding callback is called with what its operation has returned. -/
def step (s : Request) : Request :=
  match s.pending with
  | none => s
  | some (.gcSnapCreate num name) =>
    let r := env.create num
    let s := { s with
      pending := none
      snaps := if r.applies then name :: s.snaps else s.snaps }
    handleSendGcSnapCreate env r.result (noteError r.result s)
  | some (.gcSnapRemove name) =>
    let r := env.remove s.removals
    let s := { s with
      pending := none
      snaps := if r.applies then s.snaps.filter (· ≠ name) else s.snaps
      removeFailed := s.removeFailed || r.result < 0 }
    handleSendGcSnapRemove r.result (noteError r.result s)
  | some .gcRollback => handleSendGcRollback env { s with pending := none }

/-- `send_gc_snap_create(1)` on an image with these snapshots. -/
def start (snaps : List Bytes) : Request := sendGcSnapCreate env 1 { snaps := snaps }

/-- Two creations, the rollback and two removals. -/
def rounds : ℕ := 5

def final (snaps : List Bytes) : Request := (step env)^[rounds] (start env snaps)

end Handlers

theorem snapName_ne_nil (env : Env) (num : ℕ) : env.snapName num ≠ [] := by
  simp [Env.snapName, genRandomGcSnap, GC_SNAP_PREFIX, ascii]

/-! ## The way back -/

section Remove

variable {env : Env} {s : Request}

/-- From `s` the request has gone through its removals to `t`. -/
structure Removed (s t : Request) : Prop where
  pending : t.pending = none
  ends : t.ends = s.ends ++ [.complete s.retVal]
  created : t.created = s.created
  errors : s.errors <+: t.errors
  gone : t.removeFailed = false → ∀ x ∈ t.snaps, x ≠ [] →
    x ∈ s.snaps ∧ x ≠ s.gcSnapName1 ∧ x ≠ s.gcSnapName2

theorem step_of_not_pending (h : s.pending = none) : step env s = s := by
  rw [step, h]

theorem iterate_of_not_pending (h : s.pending = none) (n : ℕ) : (step env)^[n] s = s :=
  Function.iterate_fixed (step_of_not_pending h) n

theorem applies_of_nonneg {r : OpResult} (h : ¬ r.result < 0) : r.applies = true := by
  simp [OpResult.applies, not_lt.mp h]

theorem sendGcSnapRemove_first (h : s.gcSnapName1 ≠ []) :
    sendGcSnapRemove s =
      if s.gcSnapName1 ∉ s.snaps then complete s.retVal { s with gcSnapName1 := [] }
      else { s with
        gcSnapName1 := []
        pending := some (.gcSnapRemove s.gcSnapName1)
        removals := s.removals + 1 } := by
  simp [sendGcSnapRemove, h]

theorem sendGcSnapRemove_second (h : s.gcSnapName1 = []) :
    sendGcSnapRemove s =
      if s.gcSnapName2 = [] ∨ s.gcSnapName2 ∉ s.snaps then
        complete s.retVal { s with gcSnapName2 := [] }
      else { s with
        gcSnapName2 := []
        pending := some (.gcSnapRemove s.gcSnapName2)
        removals := s.removals + 1 } := by
  by_cases hname : s.gcSnapName2 = [] <;> simp [sendGcSnapRemove, h, hname]

/-- A removal that fails ends the request. -/
theorem removed_of_neg {u : Request} {name : Bytes} (h : u.pending = some (.gcSnapRemove name))
    (hr : (env.remove u.removals).result < 0) (hends : u.ends = s.ends)
    (hret : u.retVal = s.retVal) (hcreated : u.created = s.created)
    (herrors : u.errors = s.errors) :
    Removed s (step env u) := by
  have hstep : (step env u).pending = none ∧ (step env u).ends = u.ends ++ [.complete u.retVal] ∧
      (step env u).created = u.created ∧ u.errors <+: (step env u).errors ∧
      (step env u).removeFailed = true := by
    simp [step, h, handleSendGcSnapRemove, noteError, complete, hr]
  obtain ⟨hp, hends', hcreated', herrors', hfailed⟩ := hstep
  rw [hends, hret] at hends'
  rw [herrors] at herrors'
  refine ⟨hp, hends', hcreated'.trans hcreated, herrors', ?_⟩
  intro hok
  rw [hfailed] at hok
  cases hok

theorem step_remove_of_nonneg {name : Bytes} (h : s.pending = some (.gcSnapRemove name))
    (hr : ¬ (env.remove s.removals).result < 0) :
    step env s = sendGcSnapRemove
      { s with pending := none, snaps := s.snaps.filter (· ≠ name) } := by
  simp [step, h, handleSendGcSnapRemove, noteError, hr, applies_of_nonneg hr]

/-- The last name: its snapshot is not there, or is removed. -/
theorem removed_second (hpending : s.pending = none) (h : s.gcSnapName1 = []) :
    Removed s (step env (sendGcSnapRemove s)) := by
  rw [sendGcSnapRemove_second h]
  split_ifs with hnone
  · -- nothing to remove: the request is complete at once
    have hdone : (complete s.retVal { s with gcSnapName2 := [] }).pending = none := hpending
    rw [step_of_not_pending hdone]
    refine ⟨hdone, rfl, rfl, List.prefix_rfl, ?_⟩
    intro _ x hx hne
    refine ⟨hx, fun hx1 => hne (hx1.trans h), ?_⟩
    rintro rfl
    exact hnone.elim hne fun hnot => hnot hx
  · generalize hu : ({ s with
      gcSnapName2 := []
      pending := some (.gcSnapRemove s.gcSnapName2)
      removals := s.removals + 1 } : Request) = u
    have hup : u.pending = some (.gcSnapRemove s.gcSnapName2) := by rw [← hu]
    by_cases hr : (env.remove u.removals).result < 0
    · subst hu
      exact removed_of_neg rfl hr rfl rfl rfl rfl
    · rw [step_remove_of_nonneg hup hr]
      generalize hv : ({ u with
        pending := none
        snaps := u.snaps.filter (· ≠ s.gcSnapName2) } : Request) = v
      have hv1 : v.gcSnapName1 = [] := by rw [← hv, ← hu]; exact h
      have hv2 : v.gcSnapName2 = [] := by rw [← hv, ← hu]
      -- both names are empty now, so the callback completes the request
      rw [sendGcSnapRemove_second hv1, if_pos (.inl hv2)]
      subst hv hu
      refine ⟨rfl, rfl, rfl, List.prefix_rfl, ?_⟩
      intro _ x hx hne
      have hmem := List.mem_filter.mp hx
      exact ⟨hmem.1, fun hx1 => hne (hx1.trans h), by simpa using hmem.2⟩

/-- The first name and then the last one. The second snapshot is not there without the
first. -/
theorem removed_first (hpending : s.pending = none) (h : s.gcSnapName1 ≠ [])
    (hsecond : s.gcSnapName1 ∉ s.snaps → s.gcSnapName2 ∈ s.snaps → s.gcSnapName2 = []) :
    Removed s ((step env)^[2] (sendGcSnapRemove s)) := by
  rw [sendGcSnapRemove_first h]
  by_cases hnone : s.gcSnapName1 ∉ s.snaps
  · have hdone : (complete s.retVal { s with gcSnapName1 := [] }).pending = none := hpending
    rw [if_pos hnone, iterate_of_not_pending hdone]
    refine ⟨hdone, rfl, rfl, List.prefix_rfl, ?_⟩
    intro _ x hx hne
    refine ⟨hx, ?_, ?_⟩
    · rintro rfl
      exact hnone hx
    · rintro rfl
      exact hne (hsecond hnone hx)
  · rw [if_neg hnone]
    generalize hu : ({ s with
      gcSnapName1 := []
      pending := some (.gcSnapRemove s.gcSnapName1)
      removals := s.removals + 1 } : Request) = u
    have hup : u.pending = some (.gcSnapRemove s.gcSnapName1) := by rw [← hu]
    rw [Function.iterate_succ_apply', Function.iterate_one]
    by_cases hr : (env.remove u.removals).result < 0
    · subst hu
      have hfailed : Removed s (step env _) := removed_of_neg rfl hr rfl rfl rfl rfl
      rw [step_of_not_pending hfailed.pending]
      exact hfailed
    · rw [step_remove_of_nonneg hup hr]
      generalize hv : ({ u with
        pending := none
        snaps := u.snaps.filter (· ≠ s.gcSnapName1) } : Request) = v
      have hvp : v.pending = none := by rw [← hv]
      have hv1 : v.gcSnapName1 = [] := by rw [← hv, ← hu]
      -- the callback goes on with the last name, from a request without the first one
      obtain ⟨hp, hends, hcreated, herrors, hgone⟩ := @removed_second env v hvp hv1
      subst hv hu
      refine ⟨hp, hends, hcreated, herrors, ?_⟩
      intro hok x hx hne
      obtain ⟨hmem, -, hname2⟩ := hgone hok x hx hne
      have hmem' := List.mem_filter.mp hmem
      exact ⟨hmem'.1, by simpa using hmem'.2, hname2⟩

end Remove

/-! ## The whole request -/

/-- The request has ended, once; it has gone on if there was no error, and has completed with
the first one otherwise. Then no snapshot it has made is left, unless a removal failed. -/
structure CleansUp (s : Request) : Prop where
  ended : s.pending = none
  once : s.ends = [.refreshObjectMap] ∧ s.errors = [] ∨
    ∃ r, s.ends = [.complete r] ∧ s.errors.head? = some r
  clean : s.ends ≠ [.refreshObjectMap] → s.removeFailed = false →
    ∀ name ∈ s.created, name ∉ s.snaps

section Whole

variable {env : Env} {snaps : List Bytes} {s t : Request} {k : ℕ}

theorem final_of_done (hk : k ≤ rounds) (h : (step env)^[k] (start env snaps) = t)
    (ht : t.pending = none) : final env snaps = t := by
  have hrounds : rounds = (rounds - k) + k := by omega
  rw [final, hrounds, Function.iterate_add_apply, h, iterate_of_not_pending ht]

/-- A request on its way back. -/
theorem cleansUp_of_removing (hk : k + 2 ≤ rounds)
    (h : (step env)^[k] (start env snaps) = sendGcSnapRemove s) (hpending : s.pending = none)
    (hname : s.gcSnapName1 ≠ [])
    (hsecond : s.gcSnapName1 ∉ s.snaps → s.gcSnapName2 ∈ s.snaps → s.gcSnapName2 = [])
    (hends : s.ends = []) (herrors : s.errors = [s.retVal])
    (hcreated : ∀ x ∈ s.created, x ≠ [] ∧ (x = s.gcSnapName1 ∨ x = s.gcSnapName2)) :
    CleansUp (final env snaps) := by
  have hremoved : Removed s ((step env)^[2] (sendGcSnapRemove s)) :=
    removed_first hpending hname hsecond
  have hsteps : (step env)^[2 + k] (start env snaps) = (step env)^[2] (sendGcSnapRemove s) := by
    rw [Function.iterate_add_apply, h]
  rw [final_of_done (by omega) hsteps hremoved.pending]
  generalize (step env)^[2] (sendGcSnapRemove s) = t at hremoved
  have hlast : t.ends = [.complete s.retVal] := by rw [hremoved.ends, hends, List.nil_append]
  refine ⟨hremoved.pending, .inr ⟨s.retVal, hlast, ?_⟩, ?_⟩
  · obtain ⟨es, hes⟩ := hremoved.errors
    rw [← hes, herrors]
    rfl
  · intro _ hok x hx hmem
    rw [hremoved.created] at hx
    obtain ⟨hne, hx⟩ := hcreated x hx
    obtain ⟨-, hne1, hne2⟩ := hremoved.gone hok x hmem hne
    exact hx.elim hne1 hne2

theorem start_of_not_plugin (h : env.pluginForCreate 1 = false) :
    start env snaps =
      { snaps := snaps, ends := [.complete (-ELIBACC)], errors := [-ELIBACC] } := by
  simp [start, sendGcSnapCreate, h, complete, noteError, ELIBACC]

theorem start_of_plugin (h : env.pluginForCreate 1 = true) :
    start env snaps =
      { snaps := snaps
        gcSnapName1 := env.snapName 1
        pending := some (.gcSnapCreate 1 (env.snapName 1))
        created := [env.snapName 1] } := by
  simp [start, sendGcSnapCreate, h]

/-- The image after a creation. -/
def Env.snapsAfter (env : Env) (num : ℕ) (snaps : List Bytes) : List Bytes :=
  if (env.create num).applies then env.snapName num :: snaps else snaps

theorem first_create_of_neg (hplugin : env.pluginForCreate 1 = true)
    (hr : (env.create 1).result < 0) :
    (step env)^[1] (start env snaps) = sendGcSnapRemove
      { snaps := env.snapsAfter 1 snaps
        gcSnapName1 := env.snapName 1
        retVal := (env.create 1).result
        errors := [(env.create 1).result]
        created := [env.snapName 1] } := by
  rw [Function.iterate_one, start_of_plugin hplugin]
  simp [step, handleSendGcSnapCreate, noteError, saveResult, hr, Env.snapsAfter]

theorem first_create_of_nonneg (hplugin : env.pluginForCreate 1 = true)
    (hr : ¬ (env.create 1).result < 0) :
    (step env)^[1] (start env snaps) = sendGcSnapCreate env 2
      { snaps := env.snapName 1 :: snaps
        gcSnapName1 := env.snapName 1
        created := [env.snapName 1] } := by
  rw [Function.iterate_one, start_of_plugin hplugin]
  simp [step, handleSendGcSnapCreate, noteError, hr, applies_of_nonneg hr]

/-- Both plugin lookups are answered and the first snapshot is made, so that the second
creation is sent. -/
structure SecondSent (env : Env) : Prop where
  plugin1 : env.pluginForCreate 1 = true
  created1 : ¬ (env.create 1).result < 0
  plugin2 : env.pluginForCreate 2 = true

theorem second_create (h : SecondSent env) :
    (step env)^[1] (start env snaps) =
      { snaps := env.snapName 1 :: snaps
        gcSnapName1 := env.snapName 1
        gcSnapName2 := env.snapName 2
        pending := some (.gcSnapCreate 2 (env.snapName 2))
        created := [env.snapName 1, env.snapName 2] } := by
  rw [first_create_of_nonneg h.plugin1 h.created1]
  simp [sendGcSnapCreate, h.plugin2]

theorem second_create_of_neg (h : SecondSent env) (hr2 : (env.create 2).result < 0) :
    (step env)^[2] (start env snaps) = sendGcSnapRemove
      { snaps := env.snapsAfter 2 (env.snapName 1 :: snaps)
        gcSnapName1 := env.snapName 1
        gcSnapName2 := env.snapName 2
        retVal := (env.create 2).result
        errors := [(env.create 2).result]
        created := [env.snapName 1, env.snapName 2] } := by
  rw [Function.iterate_succ_apply', second_create h]
  simp [step, handleSendGcSnapCreate, noteError, saveResult, hr2, Env.snapsAfter]

/-- The rollback is outstanding. -/
theorem second_create_of_nonneg (h : SecondSent env) (hr2 : ¬ (env.create 2).result < 0) :
    (step env)^[2] (start env snaps) =
      { snaps := env.snapName 2 :: env.snapName 1 :: snaps
        gcSnapName1 := env.snapName 1
        gcSnapName2 := env.snapName 2
        pending := some .gcRollback
        created := [env.snapName 1, env.snapName 2] } := by
  rw [Function.iterate_succ_apply', second_create h]
  simp [step, handleSendGcSnapCreate, noteError, hr2, applies_of_nonneg hr2, sendGcRollback,
    snapName_ne_nil]

theorem rollback_of_neg (h : SecondSent env) (hr2 : ¬ (env.create 2).result < 0)
    (hr : env.mgrRet < 0) :
    (step env)^[3] (start env snaps) = sendGcSnapRemove
      { snaps := env.snapName 2 :: env.snapName 1 :: snaps
        gcSnapName1 := env.snapName 1
        gcSnapName2 := env.snapName 2
        retVal := env.mgrRet
        errors := [env.mgrRet]
        created := [env.snapName 1, env.snapName 2] } := by
  rw [Function.iterate_succ_apply', second_create_of_nonneg h hr2]
  simp [step, handleSendGcRollback, noteError, saveResult, hr]

theorem rollback_of_nonneg (h : SecondSent env) (hr2 : ¬ (env.create 2).result < 0)
    (hr : ¬ env.mgrRet < 0) :
    (step env)^[3] (start env snaps) =
      { snaps := env.snapName 2 :: env.snapName 1 :: snaps
        gcSnapName1 := env.snapName 1
        gcSnapName2 := env.snapName 2
        ends := [.refreshObjectMap]
        created := [env.snapName 1, env.snapName 2] } := by
  rw [Function.iterate_succ_apply', second_create_of_nonneg h hr2]
  simp [step, handleSendGcRollback, noteError, hr]

theorem cleansUp_of_secondSent (h : SecondSent env) (snaps : List Bytes) :
    CleansUp (final env snaps) := by
  have hcreated : ∀ x ∈ [env.snapName 1, env.snapName 2],
      x ≠ [] ∧ (x = env.snapName 1 ∨ x = env.snapName 2) := by
    intro x hx
    rw [List.mem_cons, List.mem_singleton] at hx
    rcases hx with rfl | rfl
    · exact ⟨snapName_ne_nil env 1, .inl rfl⟩
    · exact ⟨snapName_ne_nil env 2, .inr rfl⟩
  by_cases hr2 : (env.create 2).result < 0
  · refine cleansUp_of_removing (by decide) (second_create_of_neg h hr2) rfl
      (snapName_ne_nil env 1) ?_ rfl rfl hcreated
    intro hnot
    refine absurd ?_ hnot
    show env.snapName 1 ∈ env.snapsAfter 2 (env.snapName 1 :: snaps)
    unfold Env.snapsAfter
    split_ifs <;> simp
  · by_cases hr : env.mgrRet < 0
    · refine cleansUp_of_removing (by decide) (rollback_of_neg h hr2 hr) rfl
        (snapName_ne_nil env 1) ?_ rfl rfl hcreated
      intro hnot
      exact absurd (by simp) hnot
    · rw [final_of_done (by decide) (rollback_of_nonneg h hr2 hr) rfl]
      exact ⟨rfl, .inl ⟨rfl, rfl⟩, fun hne => absurd rfl hne⟩

/-- The plugin is found for the first snapshot, which is made, and not for the second. -/
def LosesPlugin (env : Env) : Prop :=
  env.pluginForCreate 1 = true ∧ 0 ≤ (env.create 1).result ∧ env.pluginForCreate 2 = false

/-- It completes with the first snapshot on the image, and no removal has been tried. -/
theorem not_cleansUp_of_losesPlugin (h : LosesPlugin env) (snaps : List Bytes) :
    ¬ CleansUp (final env snaps) := by
  obtain ⟨hplugin1, hr1, hplugin2⟩ := h
  have hlost : (step env)^[1] (start env snaps) =
      { snaps := env.snapName 1 :: snaps
        gcSnapName1 := env.snapName 1
        ends := [.complete (-ELIBACC)]
        errors := [-ELIBACC]
        created := [env.snapName 1] } := by
    rw [first_create_of_nonneg hplugin1 (not_lt.mpr hr1)]
    simp [sendGcSnapCreate, hplugin2, complete, noteError, ELIBACC]
  rw [final_of_done (by decide) hlost rfl]
  intro hclean
  exact hclean.clean (by simp) rfl (env.snapName 1) (by simp) (by simp)

/-- **Temporary snapshots.** For all results of its calls the request ends exactly once, goes on
or completes with the first error, and leaves no temporary snapshot behind where removals do not
fail, unless the plugin is lost between the two creations. -/
theorem rollback_cleansUp_iff (env : Env) (snaps : List Bytes) :
    CleansUp (final env snaps) ↔ ¬ LosesPlugin env := by
  cases hplugin1 : env.pluginForCreate 1 with
  | false =>
    rw [final_of_done (Nat.zero_le _) (start_of_not_plugin hplugin1) rfl]
    refine iff_of_true ⟨rfl, .inr ⟨_, rfl, rfl⟩, by simp⟩ ?_
    rintro ⟨h, -⟩
    rw [hplugin1] at h
    cases h
  | true =>
    by_cases hr1 : (env.create 1).result < 0
    · refine iff_of_true ?_ fun h => absurd h.2.1 (not_le.mpr hr1)
      refine cleansUp_of_removing (by decide) (first_create_of_neg hplugin1 hr1) rfl
        (snapName_ne_nil env 1) (fun _ _ => rfl) rfl rfl ?_
      intro x hx
      obtain rfl := List.mem_singleton.mp hx
      exact ⟨snapName_ne_nil env 1, .inl rfl⟩
    · cases hplugin2 : env.pluginForCreate 2 with
      | false =>
        have hlost : LosesPlugin env := ⟨hplugin1, not_lt.mp hr1, hplugin2⟩
        exact iff_of_false (not_cleansUp_of_losesPlugin hlost snaps) (not_not.mpr hlost)
      | true =>
        have hkept : ¬ LosesPlugin env := by
          rintro ⟨-, -, h⟩
          rw [hplugin2] at h
          cases h
        exact iff_of_true (cleansUp_of_secondSent ⟨hplugin1, hr1, hplugin2⟩ snaps) hkept

end Whole

/-- All calls succeed but the plugin lookup of the second creation. -/
theorem rollback_leaves_snapshot :
    ¬ CleansUp (final { pluginForCreate := fun num => num = 1 } []) :=
  not_cleansUp_of_losesPlugin ⟨by decide, by decide, by decide⟩ []

end GcAdaptor.SnapshotRollback
