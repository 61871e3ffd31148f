/-
The **lane layer**: straight-line programs over a register file, run in several
lanes at once.

A mixing function is a list of assignments `d = d - s`, `d = d ^ (s >> k)` and
`d = d ^ (s << k)`. A fast version of it keeps several independent copies of the
registers and issues the assignments of all copies one after the other, so that
the pipelines stay full. Two facts make such a version equal to the plain one:

* a word may itself be a vector of words with lanewise operations, and running a
  program on vectors runs it in every lane (`run_apply`);
* an assignment of one copy does not touch another copy, so what a copy computes
  is the run of its own assignments alone (`runLanes_apply`), however they are
  interleaved with the others.
-/
import Mathlib.Data.List.Nodup
import Mathlib.Logic.Function.Basic

set_option autoImplicit false

namespace GcAdaptor.LaneProgram

/-! ## Words and assignments -/

/-- The operations on a word that a mixing program uses. -/
class MixWord (W : Type*) where
  sub : W → W → W
  eor : W → W → W
  shr : W → ℕ → W
  shl : W → ℕ → W

/-- A machine word: subtraction wraps, both shifts fill with zeroes. -/
instance (n : ℕ) : MixWord (BitVec n) where
  sub a b := a - b
  eor a b := a ^^^ b
  shr a k := a >>> k
  shl a k := a <<< k

/-- A vector register: the operation of the lane type, lane by lane. -/
instance {ι W : Type*} [MixWord W] : MixWord (ι → W) where
  sub a b := fun i => MixWord.sub (a i) (b i)
  eor a b := fun i => MixWord.eor (a i) (b i)
  shr a k := fun i => MixWord.shr (a i) k
  shl a k := fun i => MixWord.shl (a i) k

/-- One assignment, over register names `R`. -/
inductive Stmt (R : Type*)
  /-- `d = d - s` -/
  | sub (d s : R)
  /-- `d = d ^ (s >> k)` -/
  | eorShr (d s : R) (k : ℕ)
  /-- `d = d ^ (s << k)` -/
  | eorShl (d s : R) (k : ℕ)
deriving DecidableEq

section Run

variable {R W : Type*} [DecidableEq R] [MixWord W]

/-- The register file after one assignment. -/
def Stmt.exec (f : R → W) : Stmt R → R → W
  | .sub d s => Function.update f d (MixWord.sub (f d) (f s))
  | .eorShr d s k => Function.update f d (MixWord.eor (f d) (MixWord.shr (f s) k))
  | .eorShl d s k => Function.update f d (MixWord.eor (f d) (MixWord.shl (f s) k))

/-- The register file after a program. -/
def run (p : List (Stmt R)) (f : R → W) : R → W :=
  p.foldl Stmt.exec f

/-- Lane `i` of an assignment on vectors is the assignment on lane `i`. -/
theorem Stmt.exec_apply {ι : Type*} (f : R → ι → W) (st : Stmt R) (r : R) (i : ι) :
    st.exec f r i = st.exec (fun r => f r i) r := by
  cases st with
  | sub d s =>
    by_cases hr : r = d
    · subst hr
      simp [Stmt.exec, MixWord.sub]
    · simp [Stmt.exec, hr]
  | eorShr d s k =>
    by_cases hr : r = d
    · subst hr
      simp [Stmt.exec, MixWord.eor, MixWord.shr]
    · simp [Stmt.exec, hr]
  | eorShl d s k =>
    by_cases hr : r = d
    · subst hr
      simp [Stmt.exec, MixWord.eor, MixWord.shl]
    · simp [Stmt.exec, hr]

/-- **Vectors run lanewise.** Lane `i` of a program on vectors is the program on
lane `i`. -/
theorem run_apply {ι : Type*} (p : List (Stmt R)) (f : R → ι → W) (r : R) (i : ι) :
    run p f r i = run p (fun r => f r i) r := by
  induction p generalizing f with
  | nil => rfl
  | cons st p ih =>
    have hexec : (fun r => st.exec f r i) = st.exec fun r => f r i := by
      funext r
      exact st.exec_apply f r i
    show run p (st.exec f) r i = run p (st.exec fun r => f r i) r
    rw [ih, hexec]

end Run

/-! ## Interleaved copies -/

section Lanes

variable {L R : Type*} [DecidableEq L]

/-- The assignments of lane `l`, in their order. -/
def project (l : L) (p : List (L × Stmt R)) : List (Stmt R) :=
  p.filterMap fun st => if st.1 = l then some st.2 else none

theorem project_cons (l : L) (st : L × Stmt R) (p : List (L × Stmt R)) :
    project l (st :: p) = if st.1 = l then st.2 :: project l p else project l p := by
  unfold project
  rw [List.filterMap_cons]
  split_ifs with hl <;> rfl

@[simp]
theorem project_append (l : L) (p q : List (L × Stmt R)) :
    project l (p ++ q) = project l p ++ project l q :=
  List.filterMap_append ..

/-- A program issued for several lanes: each assignment for every lane before the
next one. -/
def interleave (lanes : List L) (p : List (Stmt R)) : List (L × Stmt R) :=
  p.flatMap fun st => lanes.map fun l => (l, st)

/-- One row of an interleaved program holds a lane's assignment once. -/
theorem project_row {lanes : List L} (hnodup : lanes.Nodup) {l : L} (hl : l ∈ lanes)
    (st : Stmt R) : project l (lanes.map fun l => (l, st)) = [st] := by
  induction lanes with
  | nil => exact absurd hl List.not_mem_nil
  | cons a lanes ih =>
    obtain ⟨ha, hrest⟩ := List.nodup_cons.mp hnodup
    rw [List.map_cons, project_cons]
    by_cases hal : a = l
    · subst hal
      -- the rest of the row belongs to other lanes
      have hnone : project a (lanes.map fun l => (l, st)) = [] := by
        unfold project
        rw [List.filterMap_eq_nil_iff]
        intro x hx
        obtain ⟨b, hb, rfl⟩ := List.mem_map.mp hx
        have hba : b ≠ a := by
          intro hba
          exact ha (hba ▸ hb)
        exact if_neg hba
      rw [if_pos rfl, hnone]
    · have hmem : l ∈ lanes := (List.mem_cons.mp hl).resolve_left (Ne.symm hal)
      rw [if_neg hal, ih hrest hmem]

/-- Every lane of an interleaved program runs the program itself. -/
theorem project_interleave {lanes : List L} (hnodup : lanes.Nodup) {l : L} (hl : l ∈ lanes)
    (p : List (Stmt R)) : project l (interleave lanes p) = p := by
  induction p with
  | nil => rfl
  | cons st p ih =>
    unfold interleave at ih ⊢
    rw [List.flatMap_cons, project_append, ih, project_row hnodup hl]
    rfl

variable {W : Type*} [DecidableEq R] [MixWord W]

/-- Copies of the register file, one for each lane, after a program whose
assignments each name their lane. -/
def runLanes (p : List (L × Stmt R)) (f : L → R → W) : L → R → W :=
  p.foldl (fun f st => Function.update f st.1 (st.2.exec (f st.1))) f

/-- **Lanes do not interfere.** What lane `l` computes is the run of its own
assignments, whatever stands between them. -/
theorem runLanes_apply (p : List (L × Stmt R)) (f : L → R → W) (l : L) :
    runLanes p f l = run (project l p) (f l) := by
  induction p generalizing f with
  | nil => rfl
  | cons st p ih =>
    show runLanes p (Function.update f st.1 (st.2.exec (f st.1))) l = _
    rw [ih, project_cons]
    split_ifs with hl
    · subst hl
      rw [Function.update_self]
      rfl
    · rw [Function.update_of_ne (Ne.symm hl)]

end Lanes

end GcAdaptor.LaneProgram
