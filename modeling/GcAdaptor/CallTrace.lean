/-
**Programs that call out**: what holds of a program whatever its calls answer.

A program is a tree. It returns, or it makes a call and goes on with the answer. `Runs p tr a` is
a run of it: `tr` are the calls in order, each with its answer, and `a` is what it returns. No
answer is excluded, so "for every run" is "for every behaviour of what is called".

A call may take a resource, give one back, or need some that are held. `Triple` is about this and
the result: from what is held before to what is held after, with every need met on the way, and a
condition on what is returned. Its rules follow the program.
-/
import Mathlib.Data.List.Basic

set_option autoImplicit false

namespace GcAdaptor.CallTrace

/-! ## Programs -/

inductive Prog (C : Type) (A : C → Type) (α : Type)
  | ret (a : α)
  | call (c : C) (next : A c → Prog C A α)

section Programs

variable {C : Type} {A : C → Type} {α β σ ι ε : Type}

namespace Prog

def bind : Prog C A α → (α → Prog C A β) → Prog C A β
  | ret a, f => f a
  | call c next, f => call c fun r => bind (next r) f

instance : Monad (Prog C A) where
  pure := ret
  bind := bind

end Prog

def perform (c : C) : Prog C A (A c) := .call c .ret

/-- `for (x : xs)` with a way out of it. -/
def loop (body : σ → ι → Prog C A (Except ε σ)) : List ι → σ → Prog C A (Except ε σ)
  | [], s => pure (.ok s)
  | x :: xs, s => do
    match ← body s x with
    | .error e => pure (.error e)
    | .ok s => loop body xs s

abbrev Trace (A : C → Type) := List (Σ c, A c)

/-! ## Runs -/

inductive Runs : Prog C A α → Trace A → α → Prop
  | ret (a : α) : Runs (.ret a) [] a
  | call {c : C} {next : A c → Prog C A α} {tr : Trace A} {a : α} (r : A c)
      (h : Runs (next r) tr a) : Runs (.call c next) (⟨c, r⟩ :: tr) a

variable {p : Prog C A α} {f : α → Prog C A β} {tr : Trace A} {a a' : α} {b : β} {c : C}

@[simp] theorem runs_pure : Runs (pure a : Prog C A α) tr a' ↔ tr = [] ∧ a' = a := by
  constructor
  · intro h
    cases h
    exact ⟨rfl, rfl⟩
  · rintro ⟨rfl, rfl⟩
    exact .ret a'

@[simp] theorem runs_perform {r : A c} :
    Runs (perform c : Prog C A (A c)) tr r ↔ tr = [⟨c, r⟩] := by
  constructor
  · intro h
    cases h with
    | call r h =>
      cases h
      rfl
  · rintro rfl
    exact .call r (.ret r)

/-- A run of two programs, one after the other. -/
theorem runs_bind :
    Runs (p >>= f) tr b ↔ ∃ tr₁ a tr₂, Runs p tr₁ a ∧ Runs (f a) tr₂ b ∧ tr = tr₁ ++ tr₂ := by
  induction p generalizing tr with
  | ret a =>
    constructor
    · intro h
      exact ⟨[], a, tr, .ret a, h, rfl⟩
    · rintro ⟨tr₁, a', tr₂, hp, hf, rfl⟩
      cases hp
      exact hf
  | call c next ih =>
    constructor
    · intro h
      cases h with
      | call r h =>
        obtain ⟨tr₁, a, tr₂, hp, hf, rfl⟩ := (ih r).mp h
        exact ⟨⟨c, r⟩ :: tr₁, a, tr₂, .call r hp, hf, rfl⟩
    · rintro ⟨tr₁, a, tr₂, hp, hf, rfl⟩
      cases hp with
      | call r hp => exact .call r ((ih r).mpr ⟨_, a, tr₂, hp, hf, rfl⟩)

/-- A run that starts with a call. -/
theorem runs_perform_bind {f : A c → Prog C A β} :
    Runs (perform c >>= f) tr b ↔ ∃ r tr₂, Runs (f r) tr₂ b ∧ tr = ⟨c, r⟩ :: tr₂ := by
  constructor
  · intro h
    obtain ⟨tr₁, r, tr₂, hp, hf, rfl⟩ := runs_bind.mp h
    obtain rfl := runs_perform.mp hp
    exact ⟨r, tr₂, hf, rfl⟩
  · rintro ⟨r, tr₂, hf, rfl⟩
    exact runs_bind.mpr ⟨_, r, tr₂, runs_perform.mpr rfl, hf, rfl⟩

/-- What each turn of a loop keeps, the whole loop keeps. -/
theorem runs_loop {body : σ → ι → Prog C A (Except ε σ)} (P : List ι → σ → Trace A → σ → Prop)
    (hnil : ∀ s, P [] s [] s)
    (hcons : ∀ x xs s s' t tr tr', Runs (body s x) tr (.ok s') → P xs s' tr' t →
      P (x :: xs) s (tr ++ tr') t) {xs : List ι} {s t : σ}
    (h : Runs (loop body xs s) tr (.ok t)) : P xs s tr t := by
  induction xs generalizing s tr with
  | nil =>
    obtain ⟨rfl, ht⟩ := runs_pure.mp h
    obtain rfl := Except.ok.inj ht
    exact hnil t
  | cons x xs ih =>
    obtain ⟨tr₁, r, tr₂, hbody, hrest, rfl⟩ := runs_bind.mp h
    cases r with
    | error e =>
      obtain ⟨-, ht⟩ := runs_pure.mp hrest
      cases ht
    | ok s' => exact hcons x xs s s' t tr₁ tr₂ hbody (ih hrest)

/-- The run in which every call has the answer `answer` gives. -/
def Prog.run (answer : (c : C) → A c) : Prog C A α → Trace A × α
  | .ret a => ([], a)
  | .call c next =>
    let (tr, a) := (next (answer c)).run answer
    (⟨c, answer c⟩ :: tr, a)

theorem Prog.runs_run (answer : (c : C) → A c) (p : Prog C A α) :
    Runs p (p.run answer).1 (p.run answer).2 := by
  induction p with
  | ret a => exact .ret a
  | call c next ih => exact .call (answer c) (ih (answer c))

end Programs

/-! ## Resources -/

/-- What a call does to the resources that are held: it needs some, gives some back, and takes
some. What it gives back it needs. -/
structure Effect (R : Type) where
  needs : List R := []
  drops : List R := []
  takes : List R := []

section Ledger

variable {C R α β σ ι ε : Type} {A : C → Type} [DecidableEq R]

/-- What is held after a call, `none` where something it needs is not held. -/
def Effect.settle (e : Effect R) (held : List R) : Option (List R) :=
  if (e.needs ++ e.drops).all (· ∈ held) then some (e.takes ++ held.diff e.drops) else none

/-- What is held after a run. A call without an effect is not allowed. -/
def settle (eff : (Σ c, A c) → Option (Effect R)) : List R → Trace A → Option (List R)
  | held, [] => some held
  | held, e :: tr => ((eff e).bind (·.settle held)).bind fun held' => settle eff held' tr

/-- Every run of `p` with `held` makes allowed calls only, each with what it needs. It ends with
what `held'` says, and `Q` holds of what it returns. -/
def Triple (eff : (Σ c, A c) → Option (Effect R)) (held : List R) (p : Prog C A α)
    (held' : α → List R) (Q : α → Prop) : Prop :=
  ∀ tr a, Runs p tr a → settle eff held tr = some (held' a) ∧ Q a

variable {eff : (Σ c, A c) → Option (Effect R)} {held : List R} {p : Prog C A α} {c : C}

theorem settle_append (tr₁ tr₂ : Trace A) :
    settle eff held (tr₁ ++ tr₂) = (settle eff held tr₁).bind fun h => settle eff h tr₂ := by
  induction tr₁ generalizing held with
  | nil => rfl
  | cons e tr₁ ih =>
    rw [List.cons_append, settle, settle]
    cases (eff e).bind (·.settle held) with
    | none => rfl
    | some h => exact ih

/-- With more calls allowed, what was allowed still is. -/
theorem settle_mono {eff' : (Σ c, A c) → Option (Effect R)}
    (hle : ∀ e x, eff e = some x → eff' e = some x) {tr : Trace A} {h : List R}
    (hs : settle eff held tr = some h) : settle eff' held tr = some h := by
  induction tr generalizing held with
  | nil => exact hs
  | cons e tr ih =>
    obtain ⟨h₁, hstep, hrest⟩ := Option.bind_eq_some_iff.mp hs
    obtain ⟨x, hx, hsettle⟩ := Option.bind_eq_some_iff.mp hstep
    rw [settle, hle e x hx, Option.bind_some, hsettle, Option.bind_some]
    exact ih hrest

/-- Every call of a run that settles is allowed. -/
theorem isSome_of_settle {tr : Trace A} {h : List R} (hs : settle eff held tr = some h) :
    ∀ e ∈ tr, (eff e).isSome := by
  induction tr generalizing held with
  | nil => simp
  | cons e tr ih =>
    obtain ⟨h₁, hstep, hrest⟩ := Option.bind_eq_some_iff.mp hs
    obtain ⟨x, hx, -⟩ := Option.bind_eq_some_iff.mp hstep
    intro e' he'
    rcases List.mem_cons.mp he' with rfl | he'
    · rw [hx]
      rfl
    · exact ih hrest e' he'

namespace Triple

variable {Q : α → Prop} {Q' : β → Prop}

theorem pure {a : α} {held' : α → List R} (h : held' a = held) (hQ : Q a) :
    Triple eff held (pure a) held' Q := by
  intro tr a' hrun
  obtain ⟨rfl, rfl⟩ := runs_pure.mp hrun
  rw [h]
  exact ⟨rfl, hQ⟩

/-- The sequence rule. -/
theorem bind {f : α → Prog C A β} {mid : α → List R} {held' : β → List R}
    (hp : Triple eff held p mid Q) (hf : ∀ a, Q a → Triple eff (mid a) (f a) held' Q') :
    Triple eff held (p >>= f) held' Q' := by
  intro tr b hrun
  obtain ⟨tr₁, a, tr₂, hrun₁, hrun₂, rfl⟩ := runs_bind.mp hrun
  obtain ⟨hsettle, hQ⟩ := hp tr₁ a hrun₁
  rw [settle_append, hsettle, Option.bind_some]
  exact hf a hQ tr₂ b hrun₂

/-- The rule for a call. -/
theorem perform {held' : A c → List R} {Q : A c → Prop}
    (h : ∀ r, (eff ⟨c, r⟩).bind (·.settle held) = some (held' r)) (hQ : ∀ r, Q r) :
    Triple eff held (perform c) held' Q := by
  intro tr r hrun
  obtain rfl := runs_perform.mp hrun
  rw [settle, h r]
  exact ⟨rfl, hQ r⟩

/-- The consequence rule. -/
theorem mono {eff' : (Σ c, A c) → Option (Effect R)} {held' : α → List R} {Q' : α → Prop}
    (hp : Triple eff held p held' Q) (hle : ∀ e x, eff e = some x → eff' e = some x)
    (hQ : ∀ a, Q a → Q' a) : Triple eff' held p held' Q' := by
  intro tr a hrun
  obtain ⟨hsettle, ha⟩ := hp tr a hrun
  exact ⟨settle_mono hle hsettle, hQ a ha⟩

/-- The rule for a loop: a turn leaves what is held as it was, and its way out is the loop's. -/
theorem loop {N : ε → Prop} {body : σ → ι → Prog C A (Except ε σ)}
    (h : ∀ s x, Triple eff held (body s x) (fun _ => held) fun r => ∀ e, r = .error e → N e)
    (xs : List ι) (s : σ) :
    Triple eff held (loop body xs s) (fun _ => held) fun r => ∀ e, r = .error e → N e := by
  induction xs generalizing s with
  | nil => exact .pure rfl fun e he => nomatch he
  | cons x xs ih =>
    refine (h s x).bind fun r hr => ?_
    cases r with
    | error e => exact .pure rfl hr
    | ok s => exact ih s

end Triple

/-- A call that is made with everything it needs and changes nothing. -/
theorem settle_needs {needs : List R} (h : ∀ r ∈ needs, r ∈ held) :
    ({ needs := needs } : Effect R).settle held = some held := by
  rw [Effect.settle, if_pos (by simpa using h)]
  rfl

theorem settle_takes {r : R} {needs : List R} (h : ∀ r ∈ needs, r ∈ held) :
    ({ needs := needs, takes := [r] } : Effect R).settle held = some (r :: held) := by
  rw [Effect.settle, if_pos (by simpa using h)]
  rfl

/-- What was taken last is given back. -/
theorem settle_drops {r : R} {needs : List R} (h : ∀ r' ∈ needs, r' ∈ r :: held) :
    ({ needs := needs, drops := [r] } : Effect R).settle (r :: held) = some held := by
  rw [Effect.settle, if_pos (by simpa using h), List.diff_cons, List.erase_cons_head]
  rfl

end Ledger

end GcAdaptor.CallTrace
