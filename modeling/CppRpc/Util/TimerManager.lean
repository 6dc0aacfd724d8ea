import Mathlib.Data.Int.Order.Basic
import CppRpc.Lib.BinaryHeap

/-!
# The timers of `RPC_util/TimerManager.h` and `TimerManager.cc`

`TimerManager` as the code computes it.  `m_timers` is one vector: its first
`m_actived_timers` entries are the active timers and are kept as a heap, the
others are the inactive ones.  A timer is known by its address.

A function is one block under the lock.  `remove_timer` locks twice, so its
second block is a function of its own, `eraseTimer`, and so is one turn of the
loop in `run`, `popDue`.  A block that reads behind the end of the vector, or
passes such a range to the heap, answers `none`.  The number of timers is not
bounded here: `m_actived_timers` is an `int`, and 2 ^ 31 timers do not fit in
memory.
-/

namespace CppRpc

open BinaryHeap

/-- The address of a `Timer`. -/
abbrev TimerPtr := Nat

/-- `TimerManager::TimerEntry`.  `TimerComp` puts the entry with the smallest
`expired` at the root. -/
structure TimerEntry where
  timer : TimerPtr
  expired : Int
  deriving DecidableEq, Repr

/-- `TimerManager`: `m_timers` and `m_actived_timers`. -/
structure TimerManager where
  timers : List TimerEntry
  activedTimers : Int
  deriving DecidableEq, Repr

namespace TimerManager

/-- The constructor. -/
def new : TimerManager := ⟨[], 0⟩

/-- The entries below `m_actived_timers`. -/
def active (m : TimerManager) : List TimerEntry := m.timers.take m.activedTimers.toNat

/-- The entries from `m_actived_timers` on. -/
def inactive (m : TimerManager) : List TimerEntry := m.timers.drop m.activedTimers.toNat

def addTimer (m : TimerManager) (timer : TimerPtr) : TimerManager :=
  if m.timers.any (·.timer == timer) then m
  else { m with timers := m.timers ++ [⟨timer, 0⟩] }

/-- The loop in `disable_timer`: where an active timer stands. -/
def position (m : TimerManager) (timer : TimerPtr) : Option Nat :=
  m.active.findIdx? (·.timer == timer)

def disableTimer (m : TimerManager) (timer : TimerPtr) : Option TimerManager :=
  if m.activedTimers ≤ m.timers.length then
    match m.position timer with
    | none => some m
    | some pos => some
        { timers := onRange (popHeap TimerEntry.expired) m.timers pos m.activedTimers.toNat
          activedTimers := m.activedTimers - 1 }
  else none

/-- The second block of `remove_timer`. -/
def eraseTimer (m : TimerManager) (timer : TimerPtr) : TimerManager :=
  { m with timers := m.timers.eraseP (·.timer == timer) }

/-- `remove_timer`, both blocks. -/
def removeTimer (m : TimerManager) (timer : TimerPtr) : Option TimerManager :=
  (m.disableTimer timer).map (·.eraseTimer timer)

/-- `enable_timer`.  Its loop starts at `m_actived_timers`, so a timer that is
already active is left alone.  The loop variable is unsigned: from a negative
`m_actived_timers` it sees no entry. -/
def enableTimer (m : TimerManager) (timer : TimerPtr) (expired : Int) : TimerManager :=
  if m.activedTimers < 0 then m
  else
    match m.inactive.findIdx? (·.timer == timer) with
    | none => m
    | some i =>
        let actived := m.activedTimers.toNat
        let timers := m.timers.modify (actived + i) ({ · with expired })
        { timers := onRange (pushHeap TimerEntry.expired) (swap timers actived (actived + i)) 0
            (actived + 1)
          activedTimers := m.activedTimers + 1 }

/-- The test of the loop in `run`, made without the lock. -/
def scanning (m : TimerManager) : Bool := m.activedTimers > 0 && m.timers.length ≠ 0

/-- The block in the loop of `run`: the timer collected, or no timer when the
root is not due and the loop ends. -/
def popDue (m : TimerManager) (now : Int) : Option (Option TimerPtr × TimerManager) :=
  match m.timers with
  | [] => none
  | root :: _ =>
      if root.expired ≤ now then
        if m.activedTimers ≤ m.timers.length then
          some (some root.timer,
            { timers := onRange (popHeap TimerEntry.expired) m.timers 0 m.activedTimers.toNat
              activedTimers := m.activedTimers - 1 })
        else none
      else some (none, m)

/-- The loop in `run`, with no other thread in between: the timers collected
and the manager.  Every turn but the last takes an active timer, so fuel above
`m_actived_timers` never runs out. -/
def scan (now : Int) : Nat → TimerManager → Option (List TimerPtr × TimerManager)
  | 0, m => some ([], m)
  | fuel + 1, m =>
      if m.scanning then
        (m.popDue now).bind fun
          | (none, m') => some ([], m')
          | (some t, m') => (scan now fuel m').map fun r => (t :: r.1, r.2)
      else some ([], m)

/-- One pass of `run` up to the calls of `time_out`. -/
def run (m : TimerManager) (now : Int) : Option (List TimerPtr × TimerManager) :=
  scan now (m.activedTimers.toNat + 1) m

end TimerManager

end CppRpc
