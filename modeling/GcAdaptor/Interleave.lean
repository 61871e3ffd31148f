/-
The **interleaving layer**: runs of a labelled step function, the invariant rule
over every run, and the bookkeeping for a pool of threads kept as a list.

Every concurrent part of this development is one deterministic step function
`step : σ → α → Option σ`. The label `α` carries what the scheduler and the
outside world choose (which thread moves, what a call returns), so "any
interleaving" is "any list of labels", and a concrete schedule can be evaluated.

`Reach step ok s₀ s` is a run from `s₀` to `s` all of whose steps satisfy `ok`.
The condition reads the state *before* the step and the label, never the state
after it. With `ok := Free` it is plain reachability.

Where every call runs under one mutex there is nothing to interleave, and a run is a list of
calls: `after` is the state after the first `n` of them.

`total` is the sum of a contribution over the pool. The invariants of this
development say that a shared word is such a sum, and `total_set` is the one
fact that turns "thread `i` moved" into arithmetic.
-/
import Mathlib.Algebra.BigOperators.Group.List.Basic
import Mathlib.Algebra.Order.BigOperators.Group.List
import Mathlib.Tactic.Linarith

set_option autoImplicit false

namespace GcAdaptor.Interleave

/-! ## Runs -/

section Runs

variable {σ α : Type*} {step : σ → α → Option σ} {ok : σ → α → Prop} {s₀ s t : σ}

/-- The state a schedule leads to, `none` where a label is not enabled. -/
def run (step : σ → α → Option σ) : σ → List α → Option σ
  | s, [] => some s
  | s, a :: as => (step s a).bind fun t => run step t as

/-- `s` is reached from `s₀` by steps that all satisfy `ok`. -/
inductive Reach (step : σ → α → Option σ) (ok : σ → α → Prop) (s₀ : σ) : σ → Prop
  | refl : Reach step ok s₀ s₀
  | tail {s t : σ} {a : α} :
      Reach step ok s₀ s → ok s a → step s a = some t → Reach step ok s₀ t

/-- No condition on the steps. -/
def Free (_ : σ) (_ : α) : Prop := True

/-- **The invariant rule.** What holds at the start and survives every admitted
step holds in every state reached. -/
theorem Reach.invariant {I : σ → Prop} (h : Reach step ok s₀ s) (h₀ : I s₀)
    (hstep : ∀ s a t, I s → ok s a → step s a = some t → I t) : I s := by
  induction h with
  | refl => exact h₀
  | tail _ hok hs ih => exact hstep _ _ _ ih hok hs

/-- The same, for an invariant whose step needs what else is known of states reached. -/
theorem Reach.invariant_of_reach {I : σ → Prop} (h : Reach step ok s₀ s) (h₀ : I s₀)
    (hstep : ∀ s a t, Reach step ok s₀ s → I s → ok s a → step s a = some t → I t) : I s := by
  induction h with
  | refl => exact h₀
  | tail hreach hok hs ih => exact hstep _ _ _ hreach ih hok hs

theorem Reach.mono {ok' : σ → α → Prop} (h : Reach step ok s₀ s)
    (hmono : ∀ s a, ok s a → ok' s a) : Reach step ok' s₀ s := by
  induction h with
  | refl => exact .refl
  | tail _ hok hs ih => exact .tail ih (hmono _ _ hok) hs

theorem Reach.trans (h₁ : Reach step ok s₀ s) (h₂ : Reach step ok s t) :
    Reach step ok s₀ t := by
  induction h₂ with
  | refl => exact h₁
  | tail _ hok hs ih => exact .tail ih hok hs

/-- A schedule that runs to the end is a run, of any kind its labels satisfy. -/
theorem reach_of_run {as : List α} (h : run step s as = some t) (hok : ∀ a ∈ as, ∀ s, ok s a) :
    Reach step ok s t := by
  induction as generalizing s with
  | nil =>
    obtain rfl : s = t := by simpa [run] using h
    exact .refl
  | cons a as ih =>
    obtain ⟨u, hu, hrest⟩ := Option.bind_eq_some_iff.mp h
    have htail := ih hrest fun b hb => hok b (by simp [hb])
    exact (Reach.tail .refl (hok a (by simp) s) hu).trans htail

/-- A schedule whose last state passes a test, as a run. -/
theorem exists_reach_of_run (step : σ → α → Option σ) (ok : σ → α → Prop) (s : σ) (as : List α)
    (p : σ → Bool) (h : (run step s as).any p = true)
    (hok : ∀ a ∈ as, ∀ s, ok s a) : ∃ t, Reach step ok s t ∧ p t = true := by
  obtain ⟨t, ht, hp⟩ := (Option.any_eq_true _ _).mp h
  exact ⟨t, reach_of_run ht hok, hp⟩

/-- The same for a condition that reads the state: it is evaluated along the way. -/
theorem exists_reach_of_checked (step : σ → α → Option σ) (ok : σ → α → Prop)
    (okb : σ → α → Bool) (s : σ) (as : List α) (p : σ → Bool)
    (h : (run (fun s a => if okb s a then step s a else none) s as).any p = true)
    (hok : ∀ s a, okb s a = true → ok s a) : ∃ t, Reach step ok s t ∧ p t = true := by
  obtain ⟨t, ht, hp⟩ := (Option.any_eq_true _ _).mp h
  have hreach : Reach _ Free s t := reach_of_run ht fun _ _ _ => trivial
  refine ⟨t, ?_, hp⟩
  clear ht hp h
  induction hreach with
  | refl => exact .refl
  | tail _ _ hs ih =>
    split_ifs at hs with hb
    exact .tail ih (hok _ _ hb) hs

/-- Every step of a schedule meets `P`, which reads the state before it. -/
def ForallSteps (step : σ → α → Option σ) (P : σ → α → Prop) : σ → List α → Prop
  | _, [] => True
  | s, a :: as => P s a ∧ ∀ t, step s a = some t → ForallSteps step P t as

/-- A step keeps `Q` exactly if it meets `P`: at the end of a run `Q` holds exactly if all steps
have. -/
theorem forallSteps_iff {P : σ → α → Prop} {I Q : σ → Prop} {as : List α}
    (hI : ∀ s a t, I s → step s a = some t → I t)
    (hQ : ∀ s a t, I s → step s a = some t → (Q t ↔ Q s ∧ P s a))
    (hrun : run step s as = some t) (hs : I s) : Q t ↔ Q s ∧ ForallSteps step P s as := by
  induction as generalizing s with
  | nil =>
    cases hrun
    exact (and_iff_left trivial).symm
  | cons a as ih =>
    obtain ⟨u, hu, hrest⟩ := Option.bind_eq_some_iff.mp hrun
    rw [ih hrest (hI s a u hs hu), hQ s a u hs hu, and_assoc]
    refine and_congr_right fun _ => and_congr_right fun _ => ⟨fun hlater v hv => ?_, fun hall => hall u hu⟩
    rw [hu] at hv
    exact Option.some.inj hv ▸ hlater

/-- `Q` holds in every state of a schedule, the first one included. -/
def ForallStates (step : σ → α → Option σ) (Q : σ → Prop) : σ → List α → Prop
  | s, [] => Q s
  | s, a :: as => Q s ∧ ∀ t, step s a = some t → ForallStates step Q t as

/-- A step from a state with `Q` leads to one with `Q` exactly if it meets `P`: `Q` holds all the
way exactly if all steps meet `P`. -/
theorem forallStates_iff {P : σ → α → Prop} {I Q : σ → Prop} {as : List α}
    (hI : ∀ s a t, I s → ok s a → step s a = some t → I t)
    (hQ : ∀ s a t, I s → ok s a → Q s → step s a = some t → (Q t ↔ P s a))
    (hrun : run step s as = some t) (hok : ForallSteps step ok s as) (hs : I s) (hq : Q s) :
    ForallStates step Q s as ↔ ForallSteps step P s as := by
  induction as generalizing s with
  | nil => exact iff_of_true hq trivial
  | cons a as ih =>
    obtain ⟨u, hu, hrest⟩ := Option.bind_eq_some_iff.mp hrun
    have hiff := hQ s a u hs hok.1 hq hu
    constructor
    · rintro ⟨-, hall⟩
      have hqu : Q u := by
        cases as with
        | nil => exact hall u hu
        | cons => exact (hall u hu).1
      refine ⟨hiff.mp hqu, fun v hv => ?_⟩
      obtain rfl := Option.some.inj (hu.symm.trans hv)
      exact (ih hrest (hok.2 u hu) (hI s a u hs hok.1 hu) hqu).mp (hall u hu)
    · rintro ⟨hp, hall⟩
      refine ⟨hq, fun v hv => ?_⟩
      obtain rfl := Option.some.inj (hu.symm.trans hv)
      exact (ih hrest (hok.2 u hu) (hI s a u hs hok.1 hu) (hiff.mpr hp)).mpr (hall u hu)

end Runs

/-! ## Calls one after another -/

section Calls

variable {σ α : Type*}

/-- The state after the first `n` calls, or after all of them if they are fewer. -/
def after (call : σ → α → σ) (s₀ : σ) (as : List α) (n : ℕ) : σ := (as.take n).foldl call s₀

variable {call : σ → α → σ} {s₀ : σ} {as : List α} {n : ℕ} {a : α}

@[simp] theorem after_zero : after call s₀ as 0 = s₀ := by
  rw [after, List.take_zero, List.foldl_nil]

theorem after_succ (ha : as[n]? = some a) :
    after call s₀ as (n + 1) = call (after call s₀ as n) a := by
  rw [after, List.take_add_one, ha, Option.toList_some, List.foldl_append]
  rfl

theorem after_of_none (ha : as[n]? = none) : after call s₀ as (n + 1) = after call s₀ as n := by
  rw [after, List.take_add_one, ha, Option.toList_none, List.append_nil, after]

/-- The invariant rule, for calls that satisfy a condition each. -/
theorem after_invariant (ok : σ → α → Prop) {I : σ → Prop} (h₀ : I s₀)
    (hstep : ∀ s a, I s → ok s a → I (call s a))
    (hok : ∀ n a, as[n]? = some a → ok (after call s₀ as n) a) (n : ℕ) :
    I (after call s₀ as n) := by
  induction n with
  | zero => rwa [after_zero]
  | succ n ih =>
    cases ha : as[n]? with
    | none => rwa [after_of_none ha]
    | some a =>
      rw [after_succ ha]
      exact hstep _ a ih (hok n a ha)

/-- A property of the calls and a condition on them that agree where an invariant holds which the
condition keeps: they agree on whole runs. -/
theorem after_forall_iff {I : σ → Prop} {P ok : σ → α → Prop} (h₀ : I s₀)
    (hstep : ∀ s a, I s → ok s a → I (call s a)) (hiff : ∀ s a, I s → (P s a ↔ ok s a)) :
    (∀ n a, as[n]? = some a → P (after call s₀ as n) a) ↔
      ∀ n a, as[n]? = some a → ok (after call s₀ as n) a := by
  constructor
  · intro hP
    -- the invariant along the property first
    have hI := after_invariant P h₀
      (fun s a hs ha => hstep s a hs ((hiff s a hs).mp ha)) hP
    exact fun n a ha => (hiff _ a (hI n)).mp (hP n a ha)
  · intro hok
    have hI := after_invariant ok h₀ hstep hok
    exact fun n a ha => (hiff _ a (hI n)).mpr (hok n a ha)

end Calls

/-! ## Sums over a pool -/

section Pool

variable {τ : Type*} {f g : τ → ℕ} {l : List τ} {i : ℕ} {x y : τ}

/-- The sum of the threads' contributions. -/
def total (f : τ → ℕ) (l : List τ) : ℕ := (l.map f).sum

@[simp] theorem total_nil : total f ([] : List τ) = 0 := rfl

@[simp] theorem total_cons : total f (x :: l) = f x + total f l := by simp [total]

@[simp] theorem total_append {l₁ l₂ : List τ} : total f (l₁ ++ l₂) = total f l₁ + total f l₂ := by
  simp [total]

/-- **One thread moved.** Replacing thread `i` changes the sum by exactly the
change of its contribution. -/
theorem total_set (h : l[i]? = some x) : total f (l.set i y) + f x = total f l + f y := by
  induction l generalizing i with
  | nil => simp at h
  | cons z l ih =>
    cases i with
    | zero =>
      obtain rfl : z = x := by simpa using h
      simp only [List.set_cons_zero, total_cons]
      omega
    | succ i =>
      have hrest := ih (i := i) (by simpa using h)
      simp only [List.set_cons_succ, total_cons]
      omega

/-- A thread that contributes what it contributed before leaves the sum alone. -/
theorem total_set_eq (h : l[i]? = some x) (hf : f y = f x) : total f (l.set i y) = total f l := by
  have := total_set (f := f) (y := y) h
  omega

/-- After thread `i` moved, a thread is thread `i` or one that was there. -/
theorem getElem?_set_cases {k : ℕ} {z : τ} (h : (l.set i y)[k]? = some z) :
    (k = i ∧ z = y) ∨ (k ≠ i ∧ l[k]? = some z) := by
  by_cases hki : k = i
  · subst hki
    have hlt : k < l.length := by
      simpa using (List.getElem?_eq_some_iff.mp h).1
    rw [List.getElem?_set_self hlt] at h
    exact .inl ⟨rfl, (Option.some.inj h).symm⟩
  · rw [List.getElem?_set_ne (Ne.symm hki)] at h
    exact .inr ⟨hki, h⟩

theorem getElem?_set_of_some (h : l[i]? = some x) (k : ℕ) :
    (l.set i y)[k]? = if k = i then some y else l[k]? := by
  split_ifs with hki
  · rw [hki, List.getElem?_set_self (List.getElem?_eq_some_iff.mp h).1]
  · rw [List.getElem?_set_ne (Ne.symm hki)]

/-- A thread keeps its place when others enter. -/
theorem getElem?_append_of_some {l' : List τ} (h : l[i]? = some x) : (l ++ l')[i]? = some x := by
  rw [List.getElem?_append_left (List.getElem?_eq_some_iff.mp h).1, h]

/-- After a thread entered, a thread is that one or one that was there. -/
theorem getElem?_concat_cases {k : ℕ} {z : τ} (h : (l ++ [y])[k]? = some z) :
    l[k]? = some z ∨ (k = l.length ∧ z = y) := by
  rcases lt_trichotomy k l.length with hlt | rfl | hgt
  · rw [List.getElem?_append_left hlt] at h
    exact .inl h
  · rw [List.getElem?_concat_length] at h
    exact .inr ⟨rfl, (Option.some.inj h).symm⟩
  · rw [List.getElem?_eq_none (by simp; omega)] at h
    cases h

/-- A thread of some kind is still there after thread `i` moved, if the others of that kind
stay of the kind wanted and thread `i` becomes one where it was. -/
theorem any_set {p q : τ → Bool} (hi : l[i]? = some x) (hx : p x = true → q y = true)
    (hother : ∀ (k : ℕ) (z : τ), k ≠ i → l[k]? = some z → p z = true → q z = true)
    (h : l.any p = true) : (l.set i y).any q = true := by
  rw [List.any_eq_true] at h ⊢
  obtain ⟨z, hmem, hz⟩ := h
  obtain ⟨k, hk⟩ := List.getElem?_of_mem hmem
  have hlt : i < l.length := (List.getElem?_eq_some_iff.mp hi).1
  by_cases hki : k = i
  · subst hki
    obtain rfl := Option.some.inj (hi.symm.trans hk)
    exact ⟨y, List.mem_of_getElem? (List.getElem?_set_self hlt), hx hz⟩
  · have hk' : (l.set i y)[k]? = some z := by
      rw [List.getElem?_set_ne (Ne.symm hki)]
      exact hk
    exact ⟨z, List.mem_of_getElem? hk', hother k z hki hk hz⟩

theorem le_total (h : x ∈ l) : f x ≤ total f l := by
  induction l with
  | nil => simp at h
  | cons z l ih =>
    rw [total_cons]
    rcases List.mem_cons.mp h with rfl | h
    · omega
    · exact (ih h).trans (by omega)

theorem total_eq_zero (h : ∀ x ∈ l, f x = 0) : total f l = 0 := by
  induction l with
  | nil => rfl
  | cons z l ih =>
    rw [total_cons, h z (by simp), ih fun x hx => h x (by simp [hx])]

@[simp] theorem total_map {υ : Type*} {f : υ → ℕ} {h : τ → υ} {l : List τ} :
    total f (l.map h) = total (fun x => f (h x)) l := by
  simp [total, Function.comp_def]

theorem total_le_total (h : ∀ x ∈ l, f x ≤ g x) : total f l ≤ total g l := by
  induction l with
  | nil => simp
  | cons z l ih =>
    have hz := h z (by simp)
    have hl := ih fun x hx => h x (by simp [hx])
    rw [total_cons, total_cons]
    omega

/-- One thread that contributes less makes the sum less. -/
theorem total_lt_total (h : ∀ x ∈ l, f x ≤ g x) (hx : x ∈ l) (hlt : f x < g x) :
    total f l < total g l := by
  induction l with
  | nil => simp at hx
  | cons z l ih =>
    have hz := h z (by simp)
    have htail : ∀ x ∈ l, f x ≤ g x := fun x hx => h x (by simp [hx])
    rw [total_cons, total_cons]
    rcases List.mem_cons.mp hx with rfl | hx
    · have := total_le_total htail
      omega
    · have := ih htail hx
      omega

theorem total_eq_countP {p : τ → Bool} (h : ∀ x ∈ l, f x = if p x then 1 else 0) :
    total f l = l.countP p := by
  induction l with
  | nil => rfl
  | cons z l ih =>
    rw [total_cons, List.countP_cons, h z (by simp), ih fun x hx => h x (by simp [hx])]
    omega

/-- A sum bounded threadwise: if each contribution is at most `M` per unit of
`g`, so is the sum. -/
theorem total_le_mul {M : ℕ} (h : ∀ x ∈ l, f x ≤ g x * M) : total f l ≤ total g l * M := by
  induction l with
  | nil => simp
  | cons z l ih =>
    have hz := h z (by simp)
    have hl := ih fun x hx => h x (by simp [hx])
    rw [total_cons, total_cons, Nat.add_mul]
    omega

/-- Putting a thread back where it is changes nothing. -/
theorem set_self (h : l[i]? = some x) : l.set i x = l := by
  obtain ⟨hi, rfl⟩ := List.getElem?_eq_some_iff.mp h
  exact List.set_getElem_self hi

/-- What holds of every thread, and of the new state of thread `i`, holds of
every thread after the move. -/
theorem forall_mem_set {P : τ → Prop} (h : ∀ x ∈ l, P x) (hy : P y) : ∀ x ∈ l.set i y, P x := by
  intro x hx
  rcases List.mem_or_eq_of_mem_set hx with hx | rfl
  · exact h x hx
  · exact hy

end Pool

end GcAdaptor.Interleave
