import Mathlib.Data.List.Basic

/-!
# A bounded first-in first-out queue

The abstract queue behind a byte cache: a list of items that never holds more
than `capacity` of them.  The bound is a field, so a queue above its capacity
cannot be built.

`put` takes a block whole or not at all, `take` removes up to `n` items from
the front, and `peek` shows what `take` would remove.
-/

namespace CppRpc

/-- A queue of at most `capacity` items, oldest first. -/
structure Fifo (α : Type) (capacity : Nat) where
  items : List α
  bounded : items.length ≤ capacity

namespace Fifo

variable {α : Type} {capacity : Nat}

/-- The queue with nothing in it. -/
def empty : Fifo α capacity := ⟨[], Nat.zero_le _⟩

/-- The room left. -/
def free (q : Fifo α capacity) : Nat := capacity - q.items.length

/-- Append a non-empty block that fits; leave the queue alone otherwise.
Answers the number of items taken. -/
def put (q : Fifo α capacity) (block : List α) : Nat × Fifo α capacity :=
  if h : 0 < block.length ∧ block.length ≤ q.free then
    (block.length, ⟨q.items ++ block, by
      have := q.bounded
      have := h.2
      simp only [free, List.length_append] at *
      omega⟩)
  else
    (0, q)

/-- What `take` would hand out. -/
def peek (q : Fifo α capacity) (n : Nat) : List α := q.items.take n

/-- Remove up to `n` items from the front. -/
def take (q : Fifo α capacity) (n : Nat) : List α × Fifo α capacity :=
  (q.items.take n, ⟨q.items.drop n, by
    have := q.bounded
    rw [List.length_drop]
    omega⟩)

theorem put_items_of_fits {q : Fifo α capacity} {block : List α} (h0 : 0 < block.length)
    (h : block.length ≤ q.free) : (q.put block).2.items = q.items ++ block := by
  rw [put, dif_pos ⟨h0, h⟩]

theorem put_fst_of_fits {q : Fifo α capacity} {block : List α} (h0 : 0 < block.length)
    (h : block.length ≤ q.free) : (q.put block).1 = block.length := by
  rw [put, dif_pos ⟨h0, h⟩]

theorem put_of_not_fits {q : Fifo α capacity} {block : List α}
    (h : ¬ (0 < block.length ∧ block.length ≤ q.free)) : q.put block = (0, q) := by
  rw [put, dif_neg h]

end Fifo

end CppRpc
