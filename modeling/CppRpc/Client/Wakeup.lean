import Mathlib.Logic.Function.Basic
import CppRpc.Lib.Runs
import CppRpc.Client.ResponseHandle

/-!
# The wake-ups on the shared condition

Any number of `ResponseHandle`s that share one `Condition`, each with the
thread that reads it, and the threads that call `write` and `time_out`.  The
lock of a handle is held from the store of a `write` or a `time_out` to the end
of its notification, and the notification is a block of its own under the lock
of the condition.

`WakeUpPending` is the property: a handle that is done and has been notified,
while its reader is still blocked, finds its tag in `m_ready`.  There is one
slot for all the readers, so a notification overwrites the one before it.
`SlotFree` excludes the notifications that overwrite a wake-up somebody still
needs, `wakeUpPending_of_slotFree` is the result, and `second_response_wins` a
run that delivers two responses in a row.
-/

namespace CppRpc

open Runs

/-- Where the thread in `ResponseHandle::read` stands. -/
inductive Reader
  | starting
  /-- Blocked in `Condition::wait`. -/
  | blocked
  | returned
  deriving DecidableEq

/-- A handle and its reader.  `locked` says that a `write` or a `time_out` is
between its store and its notification.  `notified` is a history: the handle
has been notified. -/
structure Waiter where
  handle : ResponseHandle
  locked : Bool
  reader : Reader
  notified : Bool

/-- The invariant of one handle, against its tag and the slot. -/
structure Waiter.Ok (tag ready : BitVec 32) (w : Waiter) : Prop where
  tag_eq : w.handle.tag = tag
  progress : (w.handle.state = .S_WAITING ∧ w.locked = false ∧ w.notified = false) ∨
    w.handle.state = .S_DONE ∨ w.handle.state = .S_TIME_OUT
  pending : w.handle.state = .S_DONE → w.notified = true → w.reader ≠ .returned → ready = tag

/-- The condition and the handles that share it. -/
structure Waiters (ι : Type) where
  condition : Condition
  waiters : ι → Waiter

namespace Waiters

variable {ι : Type}

inductive Action (ι : Type)
  /-- The first test in `Condition::wait`. -/
  | wait (i : ι)
  /-- A later one. -/
  | wakeUp (i : ι)
  | write (i : ι) (buf : List UInt8)
  | timeOut (i : ι)
  | notify (i : ι)

def new (tag : ι → BitVec 32) : Waiters ι :=
  ⟨.new, fun i => ⟨.new (tag i), false, .starting, false⟩⟩

def set [DecidableEq ι] (s : Waiters ι) (i : ι) (w : Waiter) : Waiters ι :=
  { s with waiters := Function.update s.waiters i w }

/-- One step. -/
def step [DecidableEq ι] (s : Waiters ι) : Action ι → Option (Waiters ι)
  | .wait i =>
      let w := s.waiters i
      if w.reader = .starting then
        match s.condition.wait? w.handle.tag with
        | some c => some { s.set i { w with reader := .returned } with condition := c }
        | none => some (s.set i { w with reader := .blocked })
      else none
  | .wakeUp i =>
      let w := s.waiters i
      if w.reader = .blocked then
        (s.condition.wait? w.handle.tag).map fun c =>
          { s.set i { w with reader := .returned } with condition := c }
      else none
  | .write i buf =>
      let w := s.waiters i
      if w.locked then none
      else
        (w.handle.write buf buf.length).map fun r =>
          s.set i { w with handle := r.2, locked := w.handle.state ≠ .S_TIME_OUT }
  | .timeOut i =>
      let w := s.waiters i
      if w.locked then none
      else some (s.set i { w with handle := w.handle.timeOut, locked := true })
  | .notify i =>
      let w := s.waiters i
      if w.locked then
        some { s.set i { w with locked := false, notified := true } with
          condition := s.condition.notify w.handle.tag }
      else none

/-- The property. -/
def WakeUpPending (s : Waiters ι) : Prop :=
  ∀ i, (s.waiters i).handle.state = .S_DONE → (s.waiters i).notified = true →
    (s.waiters i).reader = .blocked → s.condition.ready = (s.waiters i).handle.tag

/-- The condition on the state before a step: a notification finds no tag in
the slot of another handle that is done and whose reader has not returned from
`wait`. -/
def SlotFree (s : Waiters ι) : Action ι → Prop
  | .notify i => ∀ j, j ≠ i → s.condition.ready = (s.waiters j).handle.tag →
      (s.waiters j).handle.state = .S_DONE → (s.waiters j).reader = .returned
  | _ => True

/-- The invariant. -/
def Inv (tag : ι → BitVec 32) (s : Waiters ι) : Prop :=
  ∀ i, (s.waiters i).Ok (tag i) s.condition.ready

variable {tag : ι → BitVec 32} {s : Waiters ι}

theorem inv_new : (new tag).Inv tag := fun i =>
  ⟨rfl, Or.inl ⟨rfl, rfl, rfl⟩, fun _ hnotified => by cases hnotified⟩

variable [DecidableEq ι]

/-- A step that changes one handle, and the slot. -/
theorem inv_set {i : ι} {w : Waiter} {c : Condition} (hw : w.Ok (tag i) c.ready)
    (hothers : ∀ j, j ≠ i → (s.waiters j).Ok (tag j) c.ready) :
    ({ s.set i w with condition := c } : Waiters ι).Inv tag :=
  (Function.forall_update_iff s.waiters fun j w => w.Ok (tag j) c.ready).mpr ⟨hw, hothers⟩

/-- A step that changes one handle and leaves the slot alone. -/
theorem Inv.set (h : s.Inv tag) {i : ι} {w : Waiter} (hw : w.Ok (tag i) s.condition.ready) :
    (s.set i w).Inv tag :=
  inv_set hw fun j _ => h j

/-- A reader that finds its tag in the slot returns and clears it.  No other
reader needs the slot, because the tags are distinct. -/
theorem Inv.returned (h : s.Inv tag) (htag : Function.Injective tag) {i : ι}
    {c : Condition} (hc : s.condition.wait? (s.waiters i).handle.tag = some c) :
    ({ s.set i { s.waiters i with reader := .returned } with condition := c } :
      Waiters ι).Inv tag := by
  have hready : s.condition.ready = tag i := by
    unfold Condition.wait? at hc
    split at hc
    · rename_i hr
      rw [hr, (h i).tag_eq]
    · cases hc
  apply inv_set
  · exact ⟨(h i).tag_eq, (h i).progress, fun _ _ hne => absurd rfl hne⟩
  · intro j hj
    refine ⟨(h j).tag_eq, (h j).progress, fun hdone hnotified hreader => ?_⟩
    have hslot := (h j).pending hdone hnotified hreader
    exact absurd (htag (hslot.symm.trans hready)) hj

/-- A notification that finds the slot free puts its own tag there. -/
theorem Inv.notify (h : s.Inv tag) {i : ι} (hlocked : (s.waiters i).locked = true)
    (hfree : s.SlotFree (.notify i)) :
    ({ s.set i { s.waiters i with locked := false, notified := true } with
      condition := s.condition.notify (s.waiters i).handle.tag } : Waiters ι).Inv tag := by
  apply inv_set
  · refine ⟨(h i).tag_eq, ?_, fun _ _ _ => (h i).tag_eq⟩
    rcases (h i).progress with ⟨-, hunlocked, -⟩ | hstored
    · rw [hlocked] at hunlocked
      cases hunlocked
    · exact Or.inr hstored
  · intro j hj
    refine ⟨(h j).tag_eq, (h j).progress, fun hdone hnotified hreader => ?_⟩
    -- The slot holds the tag of `j`, so this notification does not find it free.
    have hslot := (h j).pending hdone hnotified hreader
    rw [← (h j).tag_eq] at hslot
    exact absurd (hfree j hj hslot hdone) hreader

theorem Inv.write (h : s.Inv tag) {i : ι} {handle : ResponseHandle} {buf : List UInt8} {n : Int}
    (hw : (s.waiters i).handle.write buf buf.length = some (n, handle)) :
    (s.set i { s.waiters i with
      handle, locked := (s.waiters i).handle.state ≠ .S_TIME_OUT }).Inv tag := by
  have hi := h i
  rcases ResponseHandle.write_cases hw with ⟨hto, rfl⟩ | ⟨hto, hdone, htag⟩
  · refine h.set ⟨hi.tag_eq, Or.inr (Or.inr hto), fun hd => ?_⟩
    rw [hto] at hd
    cases hd
  · refine h.set ⟨htag.trans hi.tag_eq, Or.inr (Or.inl hdone), fun _ hnotified => ?_⟩
    -- A handle notified before, and not timed out, is done already.
    rcases hi.progress with ⟨-, -, hnot⟩ | hd | hd
    · rw [hnot] at hnotified
      cases hnotified
    · exact hi.pending hd hnotified
    · exact absurd hd hto

theorem Inv.timeOut (h : s.Inv tag) (i : ι) :
    (s.set i { s.waiters i with
      handle := (s.waiters i).handle.timeOut, locked := true }).Inv tag := by
  have hi := h i
  have htag := (ResponseHandle.timeOut_tag (s.waiters i).handle).trans hi.tag_eq
  rcases (s.waiters i).handle.timeOut_cases with ⟨-, hto⟩ | ⟨hne, heq⟩
  · refine h.set ⟨htag, Or.inr (Or.inr hto), fun hd => ?_⟩
    rw [hto] at hd
    cases hd
  · rw [heq]
    refine h.set ⟨hi.tag_eq, ?_, hi.pending⟩
    rcases hi.progress with ⟨hw, -⟩ | hstored
    · exact absurd hw hne
    · exact Or.inr hstored

theorem Inv.step (h : s.Inv tag) (htag : Function.Injective tag) {a : Action ι}
    (hok : s.SlotFree a) {s' : Waiters ι} (hs : s.step a = some s') : s'.Inv tag := by
  cases a with
  | wait i =>
    simp only [Waiters.step] at hs
    split at hs
    · rename_i hstarting
      split at hs
      · rename_i c hc
        cases hs
        exact h.returned htag hc
      · cases hs
        refine h.set ⟨(h i).tag_eq, (h i).progress, fun hdone hnotified _ => ?_⟩
        exact (h i).pending hdone hnotified (by rw [hstarting]; decide)
    · cases hs
  | wakeUp i =>
    simp only [Waiters.step] at hs
    split at hs
    · obtain ⟨c, hc, rfl⟩ := Option.map_eq_some_iff.mp hs
      exact h.returned htag hc
    · cases hs
  | write i buf =>
    simp only [Waiters.step] at hs
    split at hs
    · cases hs
    · obtain ⟨⟨n, handle⟩, hw, rfl⟩ := Option.map_eq_some_iff.mp hs
      exact h.write hw
  | timeOut i =>
    simp only [Waiters.step] at hs
    split at hs
    · cases hs
    · cases hs
      exact h.timeOut i
  | notify i =>
    simp only [Waiters.step] at hs
    split at hs
    · rename_i hlocked
      cases hs
      exact h.notify hlocked hok
    · cases hs

/-- In every run whose notifications find the slot free, no wake-up is lost. -/
theorem wakeUpPending_of_slotFree (htag : Function.Injective tag)
    (h : ReachableIf step SlotFree (new tag) s) : s.WakeUpPending := by
  have hinv : s.Inv tag := h.invariant inv_new fun _ _ _ hs hok hstep => hs.step htag hok hstep
  intro i hdone hnotified hblocked
  rw [(hinv i).tag_eq]
  exact (hinv i).pending hdone hnotified (by rw [hblocked]; decide)

instance {n : Nat} : DecidablePred (@WakeUpPending (Fin n)) := fun s =>
  inferInstanceAs (Decidable (∀ i, (s.waiters i).handle.state = .S_DONE → _))

instance {n : Nat} (s : Waiters (Fin n)) : DecidablePred s.SlotFree
  | .notify i => inferInstanceAs (Decidable (∀ j, j ≠ i → _))
  | .wait _ | .wakeUp _ | .write _ _ | .timeOut _ => isTrue trivial

/-- Two readers; the first returns before the response of the second comes. -/
theorem wakeUpPending_of_slotFree_in_turn :
    ∃ s : Waiters (Fin 2), ((s.waiters 0).reader = .returned ∧ (s.waiters 1).reader = .blocked ∧
      s.condition.ready = 8) ∧ s.WakeUpPending := by
  obtain ⟨s, hs, hP⟩ : ∃ s, ReachableIf step SlotFree (new fun i : Fin 2 => i.val + 7) s ∧
      ((s.waiters 0).reader = .returned ∧ (s.waiters 1).reader = .blocked ∧
        s.condition.ready = 8) :=
    exists_reachable_of_run
      [.wait 0, .wait 1, .write 0 [1], .notify 0, .wakeUp 0, .write 1 [2], .notify 1]
      (by decide +kernel)
  have htag : ∀ i j : Fin 2, (i.val + 7 : BitVec 32) = j.val + 7 → i = j := by decide
  exact ⟨s, hP, wakeUpPending_of_slotFree (fun i j => htag i j) hs⟩

/-- Both responses arrive before the first reader wakes up: the slot holds the
second tag, and the first reader stays blocked. -/
theorem second_response_wins :
    ∃ s, Reachable step (new fun i : Fin 2 => i.val + 7) s ∧ ¬ s.WakeUpPending :=
  exists_reachable_of_run
    [.wait 0, .wait 1, .write 0 [1], .notify 0, .write 1 [2], .notify 1]
    (by decide +kernel)

end Waiters

end CppRpc
