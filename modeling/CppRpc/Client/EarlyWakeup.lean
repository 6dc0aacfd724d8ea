import CppRpc.Client.Requests
import CppRpc.Client.Wakeup

/-!
# Wake-ups that come too early

The system of `Client.Wakeup`, with the tags that `ClientService::hash` makes.
`NotifiedFirst` is the property: a reader that has left `Condition::wait` has
been notified by its own handle, which no longer waits.

A reader leaves as soon as the slot holds its tag, whoever put it there.  Two
values are there without a notification of its own.  An empty slot holds `-1`,
which is the tag of some request of every method (`exists_hash_eq`); and the
slot keeps the tag of a notification that nobody consumed, such as those of the
repeating timer of a request that has returned.  `OwnSlot` excludes both, and
`notifiedFirst_of_ownSlot` is the result.
-/

namespace CppRpc

open Runs

/-- Every tag is the tag of some request of a method. -/
theorem ClientService.exists_hash_eq (strHash : String → BitVec 64) (method : String)
    (tag : BitVec 32) : ∃ queryId, ClientService.hash strHash ⟨method, queryId⟩ = tag := by
  have hlow : ∀ x : BitVec 32, (x.signExtend 64).setWidth 32 = x := by
    intro x
    ext i hi
    rw [BitVec.getElem_setWidth, BitVec.getLsbD_signExtend, if_pos hi,
      BitVec.getLsbD_eq_getElem hi]
    simp only [show i < 64 by omega, decide_true, Bool.true_and]
  refine ⟨tag ^^^ (strHash method).setWidth 32, ?_⟩
  rw [ClientService.hash, BitVec.setWidth_xor, hlow, BitVec.xor_assoc, BitVec.xor_self,
    BitVec.xor_zero]

/-- The invariant of one reader, against the slot. -/
structure Waiter.Prompt (ready : BitVec 32) (w : Waiter) : Prop where
  waiting : w.handle.state = .S_WAITING → w.locked = false ∧ w.notified = false
  returned : w.reader = .returned → w.notified = true
  blocked : w.reader = .blocked → w.notified = false →
    w.handle.tag ≠ -1 ∧ ready ≠ w.handle.tag

namespace Waiters

variable {ι : Type}

/-- The property. -/
def NotifiedFirst (s : Waiters ι) : Prop :=
  ∀ i, (s.waiters i).reader = .returned →
    (s.waiters i).notified = true ∧ (s.waiters i).handle.state ≠ .S_WAITING

/-- The condition on the state before a step.  A reader that comes to `wait`
before it is notified has a tag other than `-1` and does not find it in the
slot, and a notification does not carry the tag of another reader that is
blocked and not notified. -/
def OwnSlot (s : Waiters ι) : Action ι → Prop
  | .wait i => (s.waiters i).notified = false →
      (s.waiters i).handle.tag ≠ -1 ∧ s.condition.ready ≠ (s.waiters i).handle.tag
  | .notify j => ∀ i, i ≠ j → (s.waiters i).reader = .blocked →
      (s.waiters i).notified = false → (s.waiters j).handle.tag ≠ (s.waiters i).handle.tag
  | _ => True

/-- The invariant. -/
def PromptInv (s : Waiters ι) : Prop := ∀ i, (s.waiters i).Prompt s.condition.ready

variable {s s' : Waiters ι}

theorem promptInv_new (tag : ι → BitVec 32) : (new tag).PromptInv := fun _ =>
  ⟨fun _ => ⟨rfl, rfl⟩, nofun, nofun⟩

/-- A reader that finds its tag in the slot has been notified. -/
theorem notified_of_wait? {tag : BitVec 32} {i : ι} {c : Condition}
    (hc : s.condition.wait? tag = some c)
    (hslot : (s.waiters i).notified = false → s.condition.ready ≠ tag) :
    (s.waiters i).notified = true := by
  by_contra hnot
  unfold Condition.wait? at hc
  split at hc
  · rename_i hready
    exact hslot (Bool.eq_false_iff.mpr hnot) hready
  · cases hc

variable [DecidableEq ι]

theorem promptInv_set {i : ι} {w : Waiter} {c : Condition} (hw : w.Prompt c.ready)
    (hothers : ∀ j, j ≠ i → (s.waiters j).Prompt c.ready) :
    ({ s.set i w with condition := c } : Waiters ι).PromptInv :=
  (Function.forall_update_iff s.waiters fun _ w => w.Prompt c.ready).mpr ⟨hw, hothers⟩

theorem PromptInv.set (h : s.PromptInv) {i : ι} {w : Waiter} (hw : w.Prompt s.condition.ready) :
    (s.set i w).PromptInv :=
  promptInv_set hw fun j _ => h j

/-- A reader that has been notified returns and leaves `-1` in the slot, where
no blocked reader looks for it. -/
theorem PromptInv.returned (h : s.PromptInv) {i : ι} {c : Condition}
    (hc : s.condition.wait? (s.waiters i).handle.tag = some c)
    (hnotified : (s.waiters i).notified = true) :
    ({ s.set i { s.waiters i with reader := .returned } with condition := c } :
      Waiters ι).PromptInv := by
  have hready : c.ready = -1 := by
    unfold Condition.wait? at hc
    split at hc
    · cases hc
      rfl
    · cases hc
  apply promptInv_set
  · exact ⟨(h i).waiting, fun _ => hnotified, nofun⟩
  · intro j _
    refine ⟨(h j).waiting, (h j).returned, fun hblocked hnot => ?_⟩
    have htag := ((h j).blocked hblocked hnot).1
    exact ⟨htag, hready ▸ htag.symm⟩

theorem PromptInv.notify (h : s.PromptInv) {i : ι} (hlocked : (s.waiters i).locked = true)
    (hok : s.OwnSlot (.notify i)) :
    ({ s.set i { s.waiters i with locked := false, notified := true } with
      condition := s.condition.notify (s.waiters i).handle.tag } : Waiters ι).PromptInv := by
  apply promptInv_set
  · refine ⟨fun hwaiting => ?_, fun _ => rfl, fun _ hnot => by cases hnot⟩
    have hunlocked := ((h i).waiting hwaiting).1
    rw [hlocked] at hunlocked
    cases hunlocked
  · intro j hj
    refine ⟨(h j).waiting, (h j).returned, fun hblocked hnot => ?_⟩
    exact ⟨((h j).blocked hblocked hnot).1, hok j hj hblocked hnot⟩

/-- A store moves the handle on and leaves its tag. -/
theorem PromptInv.store (h : s.PromptInv) {i : ι} {handle : ResponseHandle} {locked : Bool}
    (hstate : handle.state ≠ .S_WAITING) (htag : handle.tag = (s.waiters i).handle.tag) :
    (s.set i { s.waiters i with handle, locked }).PromptInv := by
  refine h.set ⟨fun hwaiting => absurd hwaiting hstate, (h i).returned, fun hblocked hnot => ?_⟩
  dsimp only
  rw [htag]
  exact (h i).blocked hblocked hnot

theorem PromptInv.step (h : s.PromptInv) {a : Action ι} (hok : s.OwnSlot a)
    (hs : s.step a = some s') : s'.PromptInv := by
  cases a with
  | wait i =>
    simp only [Waiters.step] at hs
    split at hs
    · split at hs
      · rename_i c hc
        cases hs
        exact h.returned hc (notified_of_wait? hc fun hnot => (hok hnot).2)
      · cases hs
        exact h.set ⟨(h i).waiting, (by simp), fun _ hnot => hok hnot⟩
    · cases hs
  | wakeUp i =>
    simp only [Waiters.step] at hs
    split at hs
    · rename_i hblocked
      obtain ⟨c, hc, rfl⟩ := Option.map_eq_some_iff.mp hs
      exact h.returned hc (notified_of_wait? hc fun hnot => ((h i).blocked hblocked hnot).2)
    · cases hs
  | write i buf =>
    simp only [Waiters.step] at hs
    split at hs
    · cases hs
    · obtain ⟨⟨n, handle⟩, hw, rfl⟩ := Option.map_eq_some_iff.mp hs
      rcases ResponseHandle.write_cases hw with ⟨hto, rfl⟩ | ⟨-, hdone, htag⟩
      · exact h.store (by rw [hto]; decide) rfl
      · exact h.store (by rw [hdone]; decide) htag
  | timeOut i =>
    simp only [Waiters.step] at hs
    split at hs
    · cases hs
    · cases hs
      refine h.store ?_ (ResponseHandle.timeOut_tag _)
      rcases (s.waiters i).handle.timeOut_cases with ⟨-, hto⟩ | ⟨hne, heq⟩
      · rw [hto]
        decide
      · rw [heq]
        exact hne
  | notify i =>
    simp only [Waiters.step] at hs
    split at hs
    · rename_i hlocked
      cases hs
      exact h.notify hlocked hok
    · cases hs

/-- For every hash of the methods and all requests: in every run that meets the
condition no reader returns before its own handle has notified it. -/
theorem notifiedFirst_of_ownSlot (strHash : String → BitVec 64) (request : ι → Request)
    (h : ReachableIf step OwnSlot (new fun i => ClientService.hash strHash (request i)) s) :
    s.NotifiedFirst := by
  have hinv : s.PromptInv :=
    h.invariant (promptInv_new _) fun _ _ _ hs hok hstep => hs.step hok hstep
  intro i hreturned
  have hnotified := (hinv i).returned hreturned
  refine ⟨hnotified, fun hwaiting => ?_⟩
  rw [((hinv i).waiting hwaiting).2] at hnotified
  cases hnotified

instance {n : Nat} : DecidablePred (@NotifiedFirst (Fin n)) := fun s =>
  inferInstanceAs (Decidable (∀ i, (s.waiters i).reader = .returned → _))

instance {n : Nat} (s : Waiters (Fin n)) : DecidablePred s.OwnSlot
  | .notify j => inferInstanceAs (Decidable (∀ i, i ≠ j → _))
  | .wait _ => inferInstanceAs (Decidable (_ → _))
  | .wakeUp _ | .write _ _ | .timeOut _ => isTrue trivial

/-- The first of two requests has timed out, and its timer notifies again while
the second waits. -/
theorem notifiedFirst_of_ownSlot_old_timer :
    ∃ s : Waiters (Fin 2), ((s.waiters 0).reader = .returned ∧
      (s.waiters 1).reader = .blocked ∧ s.condition.ready = 7) ∧ s.NotifiedFirst := by
  obtain ⟨s, hs, hP⟩ : ∃ s, ReachableIf step OwnSlot
      (new fun i : Fin 2 => ClientService.hash (fun _ => 0) ⟨"add", i.val + 7⟩) s ∧
      ((s.waiters 0).reader = .returned ∧ (s.waiters 1).reader = .blocked ∧
        s.condition.ready = 7) :=
    exists_reachable_of_run
      [.wait 0, .timeOut 0, .notify 0, .wakeUp 0, .wait 1, .timeOut 0, .notify 0]
      (by decide +kernel)
  exact ⟨s, hP, notifiedFirst_of_ownSlot _ _ hs⟩

/-- A single request: for no hash and no method is the property kept for every
query id.  There is one with the tag `-1`, and its reader returns at once. -/
theorem tag_of_empty_slot_returns :
    ¬ ∃ (strHash : String → BitVec 64) (method : String), ∀ queryId s,
      Reachable step (new fun _ : Fin 1 => ClientService.hash strHash ⟨method, queryId⟩) s →
        s.NotifiedFirst := by
  rintro ⟨strHash, method, hkept⟩
  obtain ⟨queryId, htag⟩ := ClientService.exists_hash_eq strHash method (-1)
  obtain ⟨s, hs, hreturns⟩ : ∃ s,
      Reachable step (new fun _ : Fin 1 => ClientService.hash strHash ⟨method, queryId⟩) s ∧
        ¬ s.NotifiedFirst := by
    rw [htag]
    exact exists_reachable_of_run [.wait 0] (by decide)
  exact hreturns (hkept queryId s hs)

end Waiters

end CppRpc
