/-
The **ledger layer**: what a program has open, kept as a list beside the program's own state, and
whether it has closed or used something that was not open, or closed something that others still
rest on.

`owner r` is what `r` rests on. `live_closeAll` and `closeAll_sound` are the rules for a shutdown
that closes a list one after another: it leaves nothing and goes wrong nowhere if the list is what
is open, each once, and nothing rests on what stands in front of it.
-/
import Mathlib.Data.List.Basic
import Mathlib.Data.List.Nodup

set_option autoImplicit false

namespace GcAdaptor.Ledger

/-- What is open, and whether something went wrong so far. -/
structure Books (ρ : Type*) where
  live : List ρ := []
  fault : Bool := false

namespace Books

variable {ρ : Type*}

def opened (rs : List ρ) (b : Books ρ) : Books ρ := { b with live := b.live ++ rs }

@[simp] theorem mem_opened {b : Books ρ} {rs : List ρ} {r : ρ} :
    r ∈ (b.opened rs).live ↔ r ∈ b.live ∨ r ∈ rs := List.mem_append

variable [DecidableEq ρ]

def use (r : ρ) (b : Books ρ) : Books ρ := { b with fault := b.fault || decide (r ∉ b.live) }

def close (owner : ρ → Option ρ) (b : Books ρ) (r : ρ) : Books ρ where
  live := b.live.filter (· ≠ r)
  fault := b.fault || decide (r ∉ b.live) || b.live.any (owner · = some r)

def closeAll (owner : ρ → Option ρ) (rs : List ρ) (b : Books ρ) : Books ρ :=
  rs.foldl (close owner) b

variable {owner : ρ → Option ρ} {b : Books ρ} {r r' : ρ} {rs rs' : List ρ}

@[simp] theorem mem_close : r' ∈ (b.close owner r).live ↔ r' ∈ b.live ∧ r' ≠ r := by
  simp [close]

theorem fault_use (h : r ∈ b.live) : (b.use r).fault = b.fault := by simp [use, h]

theorem fault_of_fault_use (h : b.fault = true) : (b.use r).fault = true := by simp [use, h]

theorem fault_of_fault_close (h : b.fault = true) : (b.close owner r).fault = true := by
  simp [close, h]

theorem fault_close (hr : r ∈ b.live) (hrest : ∀ r' ∈ b.live, owner r' ≠ some r) :
    (b.close owner r).fault = b.fault := by
  have hany : b.live.any (owner · = some r) = false := by
    rw [List.any_eq_false]
    intro r' hr'
    simpa using hrest r' hr'
  simp [close, hr, hany]

theorem closeAll_append :
    closeAll owner (rs ++ rs') b = closeAll owner rs' (closeAll owner rs b) :=
  List.foldl_append

theorem mem_closeAll : r ∈ (closeAll owner rs b).live ↔ r ∈ b.live ∧ r ∉ rs := by
  induction rs generalizing b with
  | nil => simp [closeAll]
  | cons x rs ih =>
    show r ∈ (closeAll owner rs (b.close owner x)).live ↔ _
    rw [ih, mem_close, List.mem_cons, not_or, and_assoc]

theorem fault_of_fault_closeAll (h : b.fault = true) : (closeAll owner rs b).fault = true := by
  induction rs generalizing b with
  | nil => exact h
  | cons x rs ih => exact ih (fault_of_fault_close h)

/-- Everything that is open is closed, what rests on something before it. -/
theorem closeAll_sound (hlive : ∀ r, r ∈ b.live ↔ r ∈ rs) (hnodup : rs.Nodup)
    (hself : ∀ r, owner r ≠ some r) (horder : rs.Pairwise fun r r' => owner r' ≠ some r) :
    (closeAll owner rs b).fault = b.fault := by
  induction rs generalizing b with
  | nil => rfl
  | cons x rs ih =>
    rw [List.nodup_cons] at hnodup
    rw [List.pairwise_cons] at horder
    have hfault : (b.close owner x).fault = b.fault := by
      refine fault_close ((hlive x).mpr List.mem_cons_self) fun r' hr' => ?_
      rcases List.mem_cons.mp ((hlive r').mp hr') with rfl | hmem
      · exact hself _
      · exact horder.1 _ hmem
    have hlive' (r : ρ) : r ∈ (b.close owner x).live ↔ r ∈ rs := by
      rw [mem_close, hlive, List.mem_cons]
      constructor
      · rintro ⟨rfl | hmem, hne⟩
        · exact absurd rfl hne
        · exact hmem
      · intro hmem
        exact ⟨.inr hmem, fun heq => hnodup.1 (heq ▸ hmem)⟩
    exact (ih hlive' hnodup.2 horder.2).trans hfault

end Books

end GcAdaptor.Ledger
