/-
The **two-level semaphore** in front of a queue with one consumer.

A producer appends an item and posts: it adds one to an atomic count, and only
if the count was negative does it go on to the inner semaphore, where it adds
one under a mutex and then notifies. The consumer waits by subtracting one from
the atomic count, and only if the count was below one does it wait at the inner
semaphore; then it drains the queue *completely*, whatever the number of posts.
So the count is neither the number of items nor the number of posts to come: a
drain leaves posts behind that later waits consume without an item.

`View` is one such queue, with how many producers are where between the append
and the end of the post. `Ok` is the invariant that relates the number of items,
the count and the inner semaphore in each mode of the consumer; `move_ok` shows
it for every move, and `Ok.not_lost` is the absence of lost wakeups. The count is
a 32-bit word: the one condition is that it is not posted at its largest value.

Nothing here names a program.
-/
import GcAdaptor.Cxx

set_option autoImplicit false

namespace GcAdaptor.TwoLevelSem

open GcAdaptor.Cxx

/-- Where the consumer is. -/
inductive Mode
  /-- before its wait -/
  | idle
  /-- at the inner semaphore, about to look at it -/
  | checking
  /-- blocked at the inner semaphore -/
  | asleep
  /-- past its wait, until it finds the queue empty -/
  | draining
  deriving DecidableEq

structure View where
  /-- items in the queue -/
  len : ℕ
  /-- the atomic count -/
  count : ℤ
  /-- the inner semaphore -/
  inner : ℕ
  mode : Mode
  /-- producers that have appended and not yet added to the count -/
  posting : ℕ
  /-- producers that have found the count negative -/
  waking : ℕ
  /-- producers that have added to the inner semaphore and not yet notified -/
  notifying : ℕ

/-- The largest value of the atomic count. -/
def INT_MAX : ℤ := 2 ^ 31 - 1

/-- What may happen. -/
inductive Move : View → View → Prop
  | append {v : View} : Move v { v with len := v.len + 1, posting := v.posting + 1 }
  | add {v : View} {p : ℕ} (h : v.posting = p + 1) (hmax : v.count ≠ INT_MAX) :
      Move v { v with
        posting := p
        count := int32 (v.count + 1)
        waking := if v.count < 0 then v.waking + 1 else v.waking }
  | post {v : View} {p : ℕ} (h : v.waking = p + 1) :
      Move v { v with waking := p, inner := v.inner + 1, notifying := v.notifying + 1 }
  | notify {v : View} {p : ℕ} (h : v.notifying = p + 1) :
      Move v { v with
        notifying := p
        mode := if v.mode = .asleep then .checking else v.mode }
  | wake {v : View} (h : v.mode = .asleep) : Move v { v with mode := .checking }
  | wait {v : View} (h : v.mode = .idle) :
      Move v { v with
        count := int32 (v.count - 1)
        mode := if v.count < 1 then .checking else .draining }
  | take {v : View} {k : ℕ} (h : v.mode = .checking) (hk : v.inner = k + 1) :
      Move v { v with inner := k, mode := .draining }
  | sleep {v : View} (h : v.mode = .checking) (hk : v.inner = 0) :
      Move v { v with mode := .asleep }
  | drain {v : View} {k : ℕ} (h : v.mode = .draining) (hk : v.len = k + 1) :
      Move v { v with len := k }
  | drained {v : View} (h : v.mode = .draining) (hk : v.len = 0) :
      Move v { v with mode := .idle }

/-- Nothing is under way at the inner semaphore, and the count is what a producer
that does not need it leaves. -/
def View.Free (v : View) : Prop :=
  0 ≤ v.count ∧ v.count ≤ INT_MAX ∧ v.inner = 0 ∧ v.waking = 0

/-- The consumer's wait is under way: either no post has come since, or exactly one
producer is bringing it, or has brought it, to the inner semaphore. -/
def View.Waiting (v : View) : Prop :=
  ((v.count = -1 ∧ v.inner = 0 ∧ v.waking = 0) ∨
    (0 ≤ v.count ∧ v.count ≤ INT_MAX ∧ v.inner + v.waking = 1)) ∧
  (v.len : ℤ) ≤ v.posting + v.count + 1

/-- **The invariant.** -/
def View.Ok (v : View) : Prop :=
  match v.mode with
  | .idle => v.Free ∧ (v.len : ℤ) ≤ v.posting + v.count
  | .draining => v.Free
  | .checking => v.Waiting
  | .asleep => v.Waiting ∧ (1 ≤ v.inner → 1 ≤ v.notifying)

section Invariant

variable {v w : View}

theorem int32_succ {z : ℤ} (hlo : -1 ≤ z) (hhi : z ≤ INT_MAX) (hmax : z ≠ INT_MAX) :
    int32 (z + 1) = z + 1 := by
  unfold INT_MAX at hhi hmax
  exact int32_of_mem (by omega) (by omega)

theorem int32_pred {z : ℤ} (hlo : 0 ≤ z) (hhi : z ≤ INT_MAX) : int32 (z - 1) = z - 1 := by
  unfold INT_MAX at hhi
  exact int32_of_mem (by omega) (by omega)

/-- In every mode the count is at least `-1` and in range. -/
theorem View.Ok.count_mem (h : v.Ok) : -1 ≤ v.count ∧ v.count ≤ INT_MAX := by
  unfold INT_MAX
  cases hm : v.mode <;> simp only [View.Ok, hm, View.Free, View.Waiting, INT_MAX] at h <;> omega

/-- **The invariant survives every move.** -/
theorem move_ok (h : v.Ok) (hm : Move v w) : w.Ok := by
  have hcount := h.count_mem
  cases hm with
  | append =>
    cases hmode : v.mode <;> simp only [View.Ok, hmode, View.Free, View.Waiting] at h ⊢ <;>
      (push_cast; omega)
  | add hp hmax =>
    have hsucc := int32_succ hcount.1 hcount.2 hmax
    unfold INT_MAX at hcount hmax
    cases hmode : v.mode <;>
      simp only [View.Ok, hmode, View.Free, View.Waiting, hsucc, INT_MAX] at h ⊢ <;>
      split_ifs <;> omega
  | post hw =>
    cases hmode : v.mode <;> simp only [View.Ok, hmode, View.Free, View.Waiting] at h ⊢ <;> omega
  | notify hn =>
    cases hmode : v.mode <;>
      simp only [View.Ok, hmode, View.Free, View.Waiting, reduceCtorEq, if_true,
        if_false] at h ⊢ <;>
      first | exact h | exact h.1
  | wake hmode =>
    simp only [View.Ok, hmode] at h
    exact h.1
  | wait hmode =>
    simp only [View.Ok, hmode] at h
    obtain ⟨⟨h0, hle, hinner, hwaking⟩, hlen⟩ := h
    have hpred := int32_pred h0 hle
    by_cases hc : v.count < 1
    · -- every item is one whose producer is yet to post
      simp only [View.Ok, View.Waiting, if_pos hc, hpred]
      omega
    · -- a post left behind by an earlier drain
      simp only [View.Ok, View.Free, if_neg hc, hpred]
      omega
  | take hmode hk =>
    -- the one post at the inner semaphore is used up
    simp only [View.Ok, hmode, View.Waiting] at h
    simp only [View.Ok, View.Free]
    omega
  | sleep hmode hk =>
    simp only [View.Ok, hmode] at h
    exact ⟨h, fun hone => by simp only at hone; omega⟩
  | drain hmode hk =>
    simp only [View.Ok, hmode] at h ⊢
    exact h
  | drained hmode hk =>
    -- the bound on the items holds again because there are none
    simp only [View.Ok, hmode] at h
    refine ⟨h, ?_⟩
    have h0 := h.1
    simp only [hk]
    push_cast
    omega

/-- The consumer is blocked at the inner semaphore, or about to be. -/
def View.Blocked (v : View) : Prop := v.mode = .asleep ∨ (v.mode = .checking ∧ v.inner = 0)

/-- **No lost wakeup.** With an item in the queue and every producer past its post,
the consumer is not blocked. -/
theorem View.Ok.not_lost (h : v.Ok) (hlen : 0 < v.len) (hp : v.posting = 0) (hw : v.waking = 0)
    (hn : v.notifying = 0) : ¬ v.Blocked := by
  rintro (hmode | ⟨hmode, hinner⟩) <;> simp only [View.Ok, hmode, View.Waiting] at h <;> omega

end Invariant

end GcAdaptor.TwoLevelSem
