/-
A **FIFO queue as a linked list with a sentinel**: `head` points at a node whose
value has been taken, `tail` at the last node, and appending writes one `next`
pointer and moves `tail`.

`Cells` is the code's view: a heap of nodes by address, with freed cells marked,
and the two operations as they read and write it. `Represents` says that the
nodes after `head` hold a given list; addresses grow along the chain, so the
write at `tail` and the free at `head` touch no other node. `Fifo` carries
the heap together with the list it represents, and `dequeue_cells` ties what the
heap operation returns to the list.

Nothing here names a program.
-/
import Mathlib.Data.List.Basic
import Mathlib.Tactic.Linarith

set_option autoImplicit false

namespace GcAdaptor.LinkedQueue

variable {α : Type}

/-- A node; the sentinel has no value. -/
structure Node (α : Type) where
  value : Option α
  next : Option ℕ

/-- The memory of one queue: a cell that was deleted is `none`. -/
structure Cells (α : Type) where
  heap : List (Option (Node α))
  head : ℕ
  tail : ℕ

/-- The node at an address, if it is alive. -/
def Cells.node (c : Cells α) (a : ℕ) : Option (Node α) := (c.heap[a]?).join

/-- An empty queue: one sentinel. -/
def Cells.new : Cells α := { heap := [some ⟨none, none⟩], head := 0, tail := 0 }

/-- `tail->next = item; tail = item`, for a fresh `item`. -/
def Cells.enqueue (c : Cells α) (v : α) : Cells α where
  heap := c.heap.modify c.tail (Option.map ({ · with next := some c.heap.length })) ++
    [some ⟨some v, none⟩]
  head := c.head
  tail := c.heap.length

/-- `none` when `head->next` is null; otherwise the value of the next node, which
becomes the sentinel while the old one is deleted. -/
def Cells.dequeue (c : Cells α) : Option (Option α × Cells α) :=
  match (c.node c.head).bind (·.next) with
  | none => none
  | some n =>
    some ((c.node n).bind (·.value), { c with heap := c.heap.set c.head none, head := n })

/-! ## What the cells hold -/

/-- From address `a` the chain holds `xs` and ends at `t`. -/
def Chain (c : Cells α) (t : ℕ) : ℕ → List α → Prop
  | a, [] => a = t ∧ ∃ v, c.node a = some ⟨v, none⟩
  | a, x :: xs => ∃ v n, a < n ∧ c.node a = some ⟨v, some n⟩ ∧
      (∃ next, c.node n = some ⟨some x, next⟩) ∧ Chain c t n xs

def Represents (c : Cells α) (xs : List α) : Prop := Chain c c.tail c.head xs

section Chains

variable {c d : Cells α} {t a : ℕ} {xs : List α}

theorem node_lt {a : ℕ} {n : Node α} (h : c.node a = some n) : a < c.heap.length := by
  by_contra hge
  simp [Cells.node, List.getElem?_eq_none (not_lt.mp hge)] at h

/-- A chain reads no cell before its start. -/
theorem Chain.congr (h : Chain c t a xs)
    (heq : ∀ b, a ≤ b → b < c.heap.length → d.node b = c.node b) : Chain d t a xs := by
  induction xs generalizing a with
  | nil =>
    obtain ⟨rfl, v, hv⟩ := h
    exact ⟨rfl, v, by rw [heq a le_rfl (node_lt hv), hv]⟩
  | cons x xs ih =>
    obtain ⟨v, n, hlt, ha, ⟨next, hn⟩, hrest⟩ := h
    refine ⟨v, n, hlt, by rw [heq a le_rfl (node_lt ha), ha],
      ⟨next, by rw [heq n hlt.le (node_lt hn), hn]⟩, ?_⟩
    exact ih hrest fun b hb => heq b (hlt.le.trans hb)

theorem Chain.le_end (h : Chain c t a xs) : a ≤ t := by
  induction xs generalizing a with
  | nil => exact h.1.le
  | cons x xs ih =>
    obtain ⟨v, n, hlt, -, -, hrest⟩ := h
    exact hlt.le.trans (ih hrest)

theorem node_enqueue_of_ne {v : α} {b : ℕ} (hb : b < c.heap.length) (hne : b ≠ c.tail) :
    (c.enqueue v).node b = c.node b := by
  simp [Cells.node, Cells.enqueue, List.getElem?_append_left, hb, Ne.symm hne]

theorem node_enqueue_tail {v : α} {n : Node α} (h : c.node c.tail = some n) :
    (c.enqueue v).node c.tail = some { n with next := some c.heap.length } := by
  have hcell : c.heap[c.tail]? = some (some n) := Option.join_eq_some_iff.mp h
  have hlt := node_lt h
  unfold Cells.node Cells.enqueue
  rw [List.getElem?_append_left (by simpa using hlt), List.getElem?_modify_eq, hcell]
  rfl

theorem node_enqueue_new (v : α) : (c.enqueue v).node c.heap.length = some ⟨some v, none⟩ := by
  simp [Cells.node, Cells.enqueue]

/-- Appending behind the last node. -/
theorem Chain.enqueue {v : α} (h : Chain c c.tail a xs) :
    Chain (c.enqueue v) (c.enqueue v).tail a (xs ++ [v]) := by
  induction xs generalizing a with
  | nil =>
    obtain ⟨rfl, w, hw⟩ := h
    exact ⟨w, c.heap.length, node_lt hw, node_enqueue_tail hw, ⟨none, node_enqueue_new v⟩, rfl,
      some v, node_enqueue_new v⟩
  | cons x xs ih =>
    obtain ⟨w, n, hlt, ha, ⟨next, hn⟩, hrest⟩ := h
    have hle : n ≤ c.tail := hrest.le_end
    refine ⟨w, n, hlt, ?_, ?_, ih hrest⟩
    · rw [node_enqueue_of_ne (node_lt ha) (by omega), ha]
    · by_cases hnt : n = c.tail
      · subst hnt
        exact ⟨_, node_enqueue_tail hn⟩
      · exact ⟨next, by rw [node_enqueue_of_ne (node_lt hn) hnt, hn]⟩

theorem node_free_of_ne {b n : ℕ} (hne : b ≠ c.head) :
    Cells.node { c with heap := c.heap.set c.head none, head := n } b = c.node b := by
  simp [Cells.node, Ne.symm hne]

end Chains

/-! ## The queue with its contents -/

/-- A queue: the cells, and the list they represent. -/
structure Fifo (α : Type) where
  cells : Cells α
  items : List α
  rep : Represents cells items

namespace Fifo

def new : Fifo α where
  cells := .new
  items := []
  rep := ⟨rfl, none, rfl⟩

def enqueue (q : Fifo α) (v : α) : Fifo α where
  cells := q.cells.enqueue v
  items := q.items ++ [v]
  rep := q.rep.enqueue

/-- The cells after one value has been taken. -/
theorem represents_tail {c : Cells α} {x : α} {xs : List α} (h : Represents c (x :: xs)) :
    ∃ d, c.dequeue = some (some x, d) ∧ Represents d xs := by
  obtain ⟨v, n, hlt, hhead, ⟨next, hn⟩, hrest⟩ := h
  refine ⟨{ c with heap := c.heap.set c.head none, head := n }, ?_, ?_⟩
  · simp [Cells.dequeue, hhead, hn]
  · refine hrest.congr fun b hb _ => node_free_of_ne ?_
    omega

def dequeue (q : Fifo α) : Option (α × Fifo α) :=
  match h : q.items with
  | [] => none
  | x :: xs =>
    some (x, {
      cells := (q.cells.dequeue.map (·.2)).getD q.cells
      items := xs
      rep := by
        obtain ⟨d, hd, hrep⟩ := represents_tail (h ▸ q.rep)
        rw [hd]
        exact hrep })

/-- **The heap operation does what the list says**: it fails on the empty queue
only, and returns the oldest value. -/
theorem dequeue_cells (q : Fifo α) :
    q.cells.dequeue = q.dequeue.map fun p => (some p.1, p.2.cells) := by
  unfold dequeue
  split
  · rename_i h
    have hrep := h ▸ q.rep
    obtain ⟨-, v, hv⟩ := hrep
    simp [Cells.dequeue, hv]
  · rename_i x xs h
    obtain ⟨d, hd, -⟩ := represents_tail (h ▸ q.rep)
    simp [hd]

@[simp] theorem items_enqueue (q : Fifo α) (v : α) :
    (q.enqueue v).items = q.items ++ [v] := rfl

theorem dequeue_eq_none {q : Fifo α} : q.dequeue = none ↔ q.items = [] := by
  unfold dequeue
  split
  · simp_all
  · simp_all

theorem dequeue_eq_some {q r : Fifo α} {x : α} (h : q.dequeue = some (x, r)) :
    q.items = x :: r.items := by
  unfold dequeue at h
  split at h
  · simp at h
  · rename_i y ys hq
    obtain ⟨rfl, rfl⟩ := Prod.mk.inj (Option.some.inj h)
    exact hq

theorem exists_dequeue {q : Fifo α} {x : α} {xs : List α} (h : q.items = x :: xs) :
    ∃ r, q.dequeue = some (x, r) ∧ r.items = xs := by
  cases hd : q.dequeue with
  | none => simp [dequeue_eq_none.mp hd] at h
  | some p =>
    obtain ⟨rfl, rfl⟩ := List.cons.inj ((dequeue_eq_some hd).symm.trans h)
    exact ⟨p.2, rfl, rfl⟩

end Fifo

end GcAdaptor.LinkedQueue
