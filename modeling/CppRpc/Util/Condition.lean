import Mathlib.Data.List.Basic

/-!
# `RPC::Condition` of `RPC_util/ThreadPool.hpp`

`Condition` has a single slot, `m_ready`, for all its waiters.  A waiter leaves
`wait` in a block that finds its target in the slot, and clears it.  The
functions here are the blocks under the lock; the `int` is only compared, so it
is a `BitVec 32`.  `pending` counts the wake-ups that the slot stands for when
the target is 1, none or one.
-/

namespace CppRpc

/-- `RPC::Condition`. -/
structure Condition where
  ready : BitVec 32
  deriving DecidableEq

namespace Condition

/-- The constructor. -/
def new : Condition := ⟨-1⟩

/-- The block of `notify_one` and `notify_all`. -/
def notify (_ : Condition) (target : BitVec 32) : Condition := ⟨target⟩

/-- The block of `wait` that tests the predicate: the condition with the slot
cleared, or `none` when the waiter goes on waiting. -/
def wait? (c : Condition) (target : BitVec 32) : Option Condition :=
  if c.ready = target then some ⟨-1⟩ else none

/-- The wake-ups that `m_ready` stands for. -/
def pending (c : Condition) : Nat := if c.ready = 1 then 1 else 0

@[simp] theorem pending_notify (c : Condition) : (c.notify 1).pending = 1 := rfl

/-- A waiter leaves with the wake-up. -/
theorem wait?_eq_some {c c' : Condition} (h : c.wait? 1 = some c') :
    c.pending = 1 ∧ c'.pending = 0 := by
  unfold wait? at h
  split at h
  · rename_i hready
    cases h
    exact ⟨if_pos hready, by decide⟩
  · cases h

end Condition

end CppRpc
