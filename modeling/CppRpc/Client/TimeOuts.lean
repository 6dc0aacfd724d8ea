import Mathlib.Algebra.Order.BigOperators.Group.Finset
import CppRpc.Client.HandlesLeft
import CppRpc.Lib.Progress

/-!
# A lost wake-up comes again

The calls of `send_request` as in `Client.HandlesLeft`, with the timer thread.
A pass of `TimerManager::run` collects timers and then calls their `time_out`
one after the other.  Which timers are due is left open: a pass collects any
timers that run.  The `time_out` of a handle that has been destroyed since is no
step: the source then reads an object that is gone.

The readers share one slot, so that a reader can miss the wake-up of its
response (`second_response_wins`) and the one of its time-out.  It does not wait
for ever all the same, because the timer of a handle is a `CIRCLE` timer, whose
`time_out` notifies again.  `timeOuts_le_of_waits` is the result: a call that
still waits has been timed out `effort` times at most.

The condition is `Prompt`.  The readers that can go on do so while `run` sleeps,
and a pass with the timer of a call that waits does not end with a handle whose
reader has returned.  A handle that is left behind (`timeout_leaves_handle`) has
a timer too, and if each pass ended with it, it could take the slot each time.

The argument is a rank.  The last notification of such a pass is a promise: the
slot holds the tag of a reader that waits.  A promise is not broken before the
next pass unless a reader returns, or the response to a call is notified, and
each of both happens once in a call.
-/

namespace CppRpc

open Runs

/-- The calls and the timer thread.  `pass` are the timers whose `time_out` is
still to be called, and `calling` is the one in it, between its store and its
notification.  `last` is a history: the last timer of the latest pass. -/
structure TimedCalls (ι : Type) where
  calls : SendCalls ι
  pass : List ι
  calling : Option ι
  last : Option ι

namespace TimedCalls

variable {ι : Type}

inductive Action (ι : Type)
  /-- A step of a caller, of the poll thread or of the world. -/
  | client (a : SendCalls.Action ι)
  /-- The end of the scan of a pass. -/
  | collect (timers : List ι)
  | timeOut
  | notify

/-- The slot. -/
abbrev ready (s : TimedCalls ι) : BitVec 32 := s.calls.waiters.condition.ready

/-- The handle of a call, and its reader. -/
abbrev waiter (s : TimedCalls ι) (i : ι) : Waiter := s.calls.waiters.waiters i

/-- The call has come through `Condition::wait`. -/
def Returned (s : TimedCalls ι) (i : ι) : Prop := (s.waiter i).reader = .returned

/-- A handle is locked by the poll thread, which is about to notify it. -/
def Responding (s : TimedCalls ι) (i : ι) : Prop :=
  (s.waiter i).locked = true ∧ s.calling ≠ some i

/-- The slot holds the tag of the last handle of the latest pass, or will at the
end of the pass, and the reader of this handle waits. -/
def Promised (s : TimedCalls ι) : Prop :=
  ∃ i ∈ s.last, ¬ s.Returned i ∧
    (s.calling ≠ none ∨ s.pass ≠ [] ∨ s.ready = (s.waiter i).handle.tag)

section Step

variable (strHash : String → BitVec 64) (args : ι → SendArgs)

/-- No response comes any more to the handle of the call. -/
def Closed (s : TimedCalls ι) (i : ι) : Prop :=
  ¬ s.calls.Early i ∧ s.calls.Gone strHash args i ∧ s.calls.delivering.map (·.1) ≠ some i ∧
    ¬ s.Responding i

/-- No call yet, and the timer thread sleeps. -/
def start (fd : Int) (writeCache : BufferCache) : TimedCalls ι :=
  ⟨.start strHash args fd writeCache, [], none, none⟩

variable [DecidableEq ι]

instance (s : TimedCalls ι) : DecidablePred s.Returned := fun _ =>
  inferInstanceAs (Decidable (_ = _))

instance (s : TimedCalls ι) : DecidablePred s.Responding := fun _ =>
  inferInstanceAs (Decidable (_ ∧ _))

instance (s : TimedCalls ι) : Decidable s.Promised :=
  inferInstanceAs (Decidable (∃ i ∈ s.last, _))

instance (s : TimedCalls ι) : DecidablePred (s.Closed strHash args) := fun _ =>
  inferInstanceAs (Decidable (¬ (_ ∨ _) ∧ _))

/-- The step is not one of the timer thread. -/
def OfOthers (s : TimedCalls ι) : SendCalls.Action ι → Prop
  | .timeOut _ => False
  | .notify i => s.calling ≠ some i
  | .test _ | .register _ | .writePackage _ | .wait _ | .wakeUp _ | .finish _ | .receive _ _
  | .deliver | .useCache _ | .closeConnection => True

instance (s : TimedCalls ι) : DecidablePred s.OfOthers
  | .timeOut _ => isFalse id
  | .notify _ => inferInstanceAs (Decidable (_ ≠ _))
  | .test _ | .register _ | .writePackage _ | .wait _ | .wakeUp _ | .finish _ | .receive _ _
  | .deliver | .useCache _ | .closeConnection => isTrue trivial

/-- One step. -/
def step (s : TimedCalls ι) : Action ι → Option (TimedCalls ι)
  | .client a =>
      if s.OfOthers a then (s.calls.step strHash args a).map fun calls => { s with calls }
      else none
  | .collect timers =>
      if s.calling = none ∧ s.pass = [] ∧ ∀ i ∈ timers, s.calls.TimerRuns strHash args i then
        some { s with pass := timers, last := timers.getLast? }
      else none
  | .timeOut =>
      match s.calling, s.pass with
      | none, i :: pass => (s.calls.step strHash args (.timeOut i)).map fun calls =>
          { s with calls, pass, calling := some i }
      | _, _ => none
  | .notify =>
      match s.calling with
      | some i => (s.calls.step strHash args (.notify i)).map fun calls =>
          { s with calls, calling := none }
      | none => none

/-- The step is a pass with the timer of the call. -/
def ofPass (i : ι) : Action ι → Bool
  | .collect timers => decide (i ∈ timers)
  | .client _ | .timeOut | .notify => false

/-- The condition on the state before a step.  A pass begins when no reader can
go on, and where it has the timer of the call, which waits, the reader of its last
handle waits. -/
def Prompt (i : ι) (s : TimedCalls ι) : Action ι → Prop
  | .collect timers =>
      (∀ k, s.calls.step strHash args (.wait k) = none ∧
        s.calls.step strHash args (.wakeUp k) = none) ∧
      (i ∈ timers → ¬ s.Returned i → ∀ k ∈ timers.getLast?, ¬ s.Returned k)
  | .client _ | .timeOut | .notify => True

instance [Fintype ι] (i : ι) (s : TimedCalls ι) : DecidablePred (s.Prompt strHash args i)
  | .collect _ => inferInstanceAs (Decidable ((∀ _, _ ∧ _) ∧ (_ → _ → ∀ _ ∈ _, _)))
  | .client _ | .timeOut | .notify => isTrue trivial

/-- What can still happen to a call: its reader returns, and a response comes. -/
def owed (s : TimedCalls ι) (i : ι) : Nat :=
  (if s.Returned i then 0 else 1) + (if s.Closed strHash args i then 0 else 1)

/-- The time-outs that a call may still have to wait for. -/
def effort [Fintype ι] (s : TimedCalls ι) : Nat :=
  2 * (∑ i, s.owed strHash args i) + if s.Promised then 0 else 1

/-! ## The rank -/

/-- What a step does not take back, and what it does where it breaks a promise. -/
structure Advances (s s' : TimedCalls ι) : Prop where
  returned : ∀ i, s.Returned i → s'.Returned i
  closed : ∀ i, s.Closed strHash args i → s'.Closed strHash args i
  promised : (s.Promised → s'.Promised) ∨ (∃ i, ¬ s.Returned i ∧ s'.Returned i) ∨
    ∃ i, ¬ s.Closed strHash args i ∧ s'.Closed strHash args i

variable {strHash args} {s s' : TimedCalls ι}

omit [DecidableEq ι] in
/-- What has happened is not owed any more. -/
theorem due_le {P Q : Prop} [Decidable P] [Decidable Q] (h : P → Q) :
    (if Q then 0 else 1) ≤ if P then 0 else 1 := by
  by_cases hP : P
  · rw [if_pos hP, if_pos (h hP)]
  · rw [if_neg hP]
    split <;> decide

omit [DecidableEq ι] in
theorem due_lt {P Q : Prop} [Decidable P] [Decidable Q] (h : ¬ P ∧ Q) :
    (if Q then 0 else 1) < if P then 0 else 1 := by
  rw [if_neg h.1, if_pos h.2]
  exact Nat.one_pos

theorem Advances.owed_le (h : s.Advances strHash args s') (i : ι) :
    s'.owed strHash args i ≤ s.owed strHash args i :=
  Nat.add_le_add (due_le (h.returned i)) (due_le (h.closed i))

theorem Advances.owed_lt (h : s.Advances strHash args s') {i : ι}
    (hi : ¬ s.Returned i ∧ s'.Returned i ∨
      ¬ s.Closed strHash args i ∧ s'.Closed strHash args i) :
    s'.owed strHash args i < s.owed strHash args i := by
  rcases hi with hi | hi
  · exact Nat.add_lt_add_of_lt_of_le (due_lt hi) (due_le (h.closed i))
  · exact Nat.add_lt_add_of_le_of_lt (due_le (h.returned i)) (due_lt hi)

/-- No step takes the rank up. -/
theorem Advances.effort_le [Fintype ι] (h : s.Advances strHash args s') :
    s'.effort strHash args ≤ s.effort strHash args := by
  have hpaid : ∀ i, (¬ s.Returned i ∧ s'.Returned i ∨
      ¬ s.Closed strHash args i ∧ s'.Closed strHash args i) →
      s'.effort strHash args ≤ s.effort strHash args := by
    intro i hi
    have hlt : ∑ i, s'.owed strHash args i < ∑ i, s.owed strHash args i :=
      Finset.sum_lt_sum (fun i _ => h.owed_le i) ⟨i, Finset.mem_univ i, h.owed_lt hi⟩
    unfold effort
    split_ifs <;> omega
  rcases h.promised with hkept | ⟨i, hi⟩ | ⟨i, hi⟩
  · have hsum : ∑ i, s'.owed strHash args i ≤ ∑ i, s.owed strHash args i :=
      Finset.sum_le_sum fun i _ => h.owed_le i
    exact Nat.add_le_add (Nat.mul_le_mul_left 2 hsum) (due_le hkept)
  · exact hpaid i (Or.inl hi)
  · exact hpaid i (Or.inr hi)

/-! ## The invariant -/

variable (strHash args) in
/-- The invariant. -/
structure Inv (s : TimedCalls ι) : Prop where
  entry : ∀ tag i, s.calls.responseHandles tag = some i →
    tag = SendCalls.tagOf strHash args i ∧ ¬ s.calls.Early i
  delivering : ∀ i, s.calls.delivering.map (·.1) = some i →
    ¬ s.calls.Early i ∧ s.calls.Gone strHash args i ∧ ¬ s.Responding i
  responding : ∀ i, s.Responding i → ¬ s.calls.Early i ∧ s.calls.Gone strHash args i
  calling : ∀ i, s.calling = some i → (s.waiter i).locked = true
  exited : ∀ i, s.calls.stage i = .exited .S_DONE ∨ s.calls.stage i = .exited .S_TIME_OUT →
    s.Returned i
  last : ∀ i, s.last = some i → s.Returned i ∨ s.calls.stage i = .reading
  pass : s.calling ≠ none ∨ s.pass ≠ [] → s.last = (s.calling.toList ++ s.pass).getLast?

omit [DecidableEq ι] in
theorem inv_start (fd : Int) (writeCache : BufferCache) :
    (start strHash args fd writeCache).Inv strHash args where
  entry := nofun
  delivering := nofun
  responding := fun i hresponding => by cases hresponding.1
  calling := nofun
  exited := fun i hexited => by rcases hexited with hexited | hexited <;> cases hexited
  last := nofun
  pass := fun hpass => by rcases hpass with hpass | hpass <;> exact absurd rfl hpass

/-! ## A call moves on -/

/-- A call does not go back before its entry. -/
theorem early_of_setStage {calls : SendCalls ι} {i k : ι} {stage : CallStage}
    (hearly : stage = .idle ∨ stage = .registering → calls.Early i)
    (hk : (calls.setStage i stage).Early k) : calls.Early k := by
  unfold SendCalls.Early SendCalls.setStage at hk
  by_cases hki : k = i
  · subst hki
    simp only [Function.update_self] at hk
    exact hearly hk
  · simp only [Function.update_of_ne hki] at hk
    exact hk

/-- The steps that leave the handles alone. -/
theorem Inv.setStage (h : s.Inv strHash args) {i : ι} (stage : CallStage) (fd : Int)
    (writeCache : BufferCache) (hearly : stage = .idle ∨ stage = .registering → s.calls.Early i)
    (hexited : stage = .exited .S_DONE ∨ stage = .exited .S_TIME_OUT → s.Returned i)
    (hreading : s.calls.stage i = .reading → s.Returned i) :
    let s' := { s with calls := { s.calls.setStage i stage with fd, writeCache } }
    s'.Inv strHash args ∧ s.Advances strHash args s' := by
  intro s'
  have hback : ∀ k, s'.calls.Early k → s.calls.Early k := fun k => early_of_setStage hearly
  refine ⟨⟨fun tag k hk => ?_, fun k hk => ?_, fun k hk => ?_, h.calling, fun k hk => ?_,
    fun k hk => ?_, h.pass⟩, fun k hk => hk, fun k hk => ?_, Or.inl id⟩
  · exact (h.entry tag k hk).imp_right (mt (hback k))
  · exact (h.delivering k hk).imp_left (mt (hback k))
  · exact (h.responding k hk).imp_left (mt (hback k))
  · by_cases hki : k = i
    · subst hki
      refine hexited ?_
      simpa only [s', SendCalls.setStage, Function.update_self] using hk
    · refine h.exited k ?_
      simpa only [s', SendCalls.setStage, Function.update_of_ne hki] using hk
  · by_cases hki : k = i
    · subst hki
      exact Or.inl ((h.last k hk).elim id hreading)
    · refine (h.last k hk).imp_right fun hstage => ?_
      simpa only [s', SendCalls.setStage, Function.update_of_ne hki] using hstage
  · exact hk.imp_left (mt (hback k))

theorem Inv.register (h : s.Inv strHash args) {i : ι} (hstage : s.calls.stage i = .registering) :
    let s' := { s with calls := { s.calls.setStage i .writing with
      responseHandles :=
        Function.update s.calls.responseHandles (SendCalls.tagOf strHash args i) (some i) } }
    s'.Inv strHash args ∧ s.Advances strHash args s' := by
  intro s'
  have hset : ({ s with calls := s.calls.setStage i .writing } : TimedCalls ι).Inv strHash args :=
    (h.setStage .writing s.calls.fd s.calls.writeCache nofun nofun
      fun hreading => by rw [hstage] at hreading; cases hreading).1
  have hearly : s.calls.Early i := Or.inr hstage
  have hback : ∀ k, s'.calls.Early k → s.calls.Early k := fun k => early_of_setStage nofun
  -- The entry of `i` is new, and of no other call.
  have hgone : ∀ k, ¬ s.calls.Early k → s.calls.Gone strHash args k →
      s'.calls.Gone strHash args k := by
    intro k hk hgone hentry
    have hki : k ≠ i := fun hki => hk (hki ▸ hearly)
    by_cases htag : SendCalls.tagOf strHash args k = SendCalls.tagOf strHash args i
    · simp only [s', htag, Function.update_self, Option.some.injEq] at hentry
      exact hki hentry.symm
    · simp only [s', Function.update_of_ne htag] at hentry
      exact hgone hentry
  refine ⟨⟨fun tag k hk => ?_, fun k hk => ?_, fun k hk => ?_, h.calling, hset.exited, hset.last,
    h.pass⟩, fun k hk => hk, fun k hk => ?_, Or.inl id⟩
  · by_cases htag : tag = SendCalls.tagOf strHash args i
    · subst htag
      simp only [s', Function.update_self, Option.some.injEq] at hk
      subst hk
      refine ⟨rfl, ?_⟩
      simp [s', SendCalls.Early, SendCalls.setStage]
    · simp only [s', Function.update_of_ne htag] at hk
      exact (h.entry tag k hk).imp_right (mt (hback k))
  · obtain ⟨hnot, hk, hresponding⟩ := h.delivering k hk
    exact ⟨mt (hback k) hnot, hgone k hnot hk, hresponding⟩
  · obtain ⟨hnot, hk⟩ := h.responding k hk
    exact ⟨mt (hback k) hnot, hgone k hnot hk⟩
  · obtain ⟨hnot, hk, hrest⟩ := hk
    exact ⟨mt (hback k) hnot, hgone k hnot hk, hrest⟩

omit [DecidableEq ι] in
/-- The poll thread takes an entry out of the map. -/
theorem Inv.receive (h : s.Inv strHash args) {tag : BitVec 32} {i : ι}
    (hentry : s.calls.responseHandles tag = some i) (response : List UInt8) :
    let s' := { s with calls := { s.calls with
      responseHandles := Function.update s.calls.responseHandles tag none
      delivering := some (i, response) } }
    s'.Inv strHash args ∧ s.Advances strHash args s' := by
  intro s'
  obtain ⟨rfl, hnot⟩ := h.entry tag i hentry
  have hgone : ∀ k, s.calls.Gone strHash args k → s'.calls.Gone strHash args k := by
    intro k hk hsome
    by_cases htag : SendCalls.tagOf strHash args k = SendCalls.tagOf strHash args i
    · simp [s', htag, Function.update_self] at hsome
    · simp only [s', Function.update_of_ne htag] at hsome
      exact hk hsome
  -- The call had its entry, so no response was on its way to it.
  have hidle : ¬ s.Responding i := fun hresponding => (h.responding i hresponding).2 hentry
  refine ⟨⟨fun tag k hk => ?_, fun k hk => ?_, fun k hk => ?_, h.calling, h.exited, h.last,
    h.pass⟩, fun k hk => hk, fun k hk => ?_, Or.inl id⟩
  · by_cases htag : tag = SendCalls.tagOf strHash args i
    · subst htag
      simp [s', Function.update_self] at hk
    · simp only [s', Function.update_of_ne htag] at hk
      exact h.entry tag k hk
  · obtain rfl : i = k := Option.some.inj hk
    refine ⟨hnot, ?_, hidle⟩
    show Function.update s.calls.responseHandles _ none _ ≠ _
    rw [Function.update_self]
    exact nofun
  · exact (h.responding k hk).imp_right (hgone k)
  · obtain ⟨hearly, hk, -, hresponding⟩ := hk
    refine ⟨hearly, hgone k hk, fun hik => ?_, hresponding⟩
    obtain rfl : i = k := Option.some.inj hik
    exact hk hentry

/-! ## A handle moves on -/

/-- The steps that change one handle.  Only the poll thread locks a handle that
the timer thread does not, and only where no entry is left. -/
theorem Inv.setWaiter (h : s.Inv strHash args) {i : ι} {w : Waiter} {c : Condition}
    (delivering : Option (ι × List UInt8)) (pass : List ι) (calling : Option ι)
    (hreader : s.Returned i → w.reader = .returned)
    (hdelivering : ∀ k, delivering.map (·.1) = some k → s.calls.delivering.map (·.1) = some k)
    (hlocked : w.locked = true → calling = some i ∨
      ¬ s.calls.Early i ∧ s.calls.Gone strHash args i ∧ delivering.map (·.1) ≠ some i)
    (hclosed : s.Closed strHash args i → w.locked = true → calling = some i)
    (hothers : ∀ k, k ≠ i → (s.waiter k).locked = true → s.calling = some k → calling = some k)
    (hcalling : ∀ k, calling = some k → k = i ∧ w.locked = true ∨ k ≠ i ∧ s.calling = some k)
    (hpass : calling ≠ none ∨ pass ≠ [] → s.last = (calling.toList ++ pass).getLast?) :
    let s' := { s with
      calls := { s.calls with
        waiters := { s.calls.waiters.set i w with condition := c }, delivering }
      pass, calling }
    s'.Inv strHash args ∧ (∀ k, s.Returned k → s'.Returned k) ∧
      ∀ k, s.Closed strHash args k → s'.Closed strHash args k := by
  intro s'
  have hwaiter : ∀ k, k ≠ i → s'.waiter k = s.waiter k := fun k hki =>
    Function.update_of_ne hki ..
  have hself : s'.waiter i = w := Function.update_self ..
  have hreturned : ∀ k, s.Returned k → s'.Returned k := by
    intro k hk
    by_cases hki : k = i
    · subst hki
      rw [Returned, hself]
      exact hreader hk
    · rw [Returned, hwaiter k hki]
      exact hk
  have hresponding : ∀ k, k ≠ i → s'.Responding k → s.Responding k := by
    intro k hki hk
    rw [Responding, hwaiter k hki] at hk
    exact ⟨hk.1, mt (hothers k hki hk.1) hk.2⟩
  refine ⟨⟨h.entry, fun k hk => ?_, fun k hk => ?_, fun k hk => ?_, fun k hk => ?_, fun k hk => ?_,
    hpass⟩, hreturned, fun k hk => ?_⟩
  · obtain ⟨hearly, hgone, hnot⟩ := h.delivering k (hdelivering k hk)
    refine ⟨hearly, hgone, fun hresp => ?_⟩
    by_cases hki : k = i
    · subst hki
      rw [Responding, hself] at hresp
      rcases hlocked hresp.1 with hcall | ⟨-, -, hne⟩
      · exact hresp.2 hcall
      · exact hne hk
    · exact hnot (hresponding k hki hresp)
  · by_cases hki : k = i
    · subst hki
      rw [Responding, hself] at hk
      rcases hlocked hk.1 with hcall | ⟨hearly, hgone, -⟩
      · exact absurd hcall hk.2
      · exact ⟨hearly, hgone⟩
    · exact h.responding k (hresponding k hki hk)
  · rcases hcalling k hk with ⟨rfl, hl⟩ | ⟨hki, hk⟩
    · rw [hself]
      exact hl
    · rw [hwaiter k hki]
      exact h.calling k hk
  · exact hreturned k (h.exited k hk)
  · exact (h.last k hk).imp_left (hreturned k)
  · have hcopy := hk
    obtain ⟨hearly, hgone, hdeliv, hresp⟩ := hk
    refine ⟨hearly, hgone, mt (hdelivering k) hdeliv, fun hresp' => ?_⟩
    by_cases hki : k = i
    · subst hki
      rw [Responding, hself] at hresp'
      exact hresp'.2 (hclosed hcopy hresp'.1)
    · exact hresp (hresponding k hki hresp')

/-- What the two tests in `Condition::wait` come to. -/
theorem wait_cases {w w' : Waiters ι} {i : ι}
    (hs : w.step (.wait i) = some w' ∨ w.step (.wakeUp i) = some w') :
    (w.waiters i).reader ≠ .returned ∧
      ((∃ c, w' = { w.set i { w.waiters i with reader := .returned } with condition := c }) ∨
        w' = w.set i { w.waiters i with reader := .blocked }) := by
  rcases hs with hs | hs
  · simp only [Waiters.step] at hs
    split at hs
    · rename_i hstarting
      refine ⟨by rw [hstarting]; decide, ?_⟩
      split at hs
      · cases hs
        exact Or.inl ⟨_, rfl⟩
      · cases hs
        exact Or.inr rfl
    · cases hs
  · simp only [Waiters.step] at hs
    split at hs
    · rename_i hblocked
      refine ⟨by rw [hblocked]; decide, ?_⟩
      obtain ⟨c, -, rfl⟩ := Option.map_eq_some_iff.mp hs
      exact Or.inl ⟨c, rfl⟩
    · cases hs

omit [DecidableEq ι] in
/-- A promise that is kept: the slot, the readers that wait and the tags stay. -/
theorem Promised.mono (hs : s.Promised) (hlast : s'.last = s.last)
    (hwaiter : ∀ k, ¬ s.Returned k →
      ¬ s'.Returned k ∧ (s'.waiter k).handle.tag = (s.waiter k).handle.tag)
    (hslot : ∀ k ∈ s.last, s.calling ≠ none ∨ s.pass ≠ [] ∨ s.ready = (s.waiter k).handle.tag →
      s'.calling ≠ none ∨ s'.pass ≠ [] ∨ s'.ready = (s.waiter k).handle.tag) : s'.Promised := by
  obtain ⟨k, hk, hwaits, hready⟩ := hs
  refine ⟨k, hlast ▸ hk, (hwaiter k hwaits).1, ?_⟩
  rw [(hwaiter k hwaits).2]
  exact hslot k hk hready

/-- A step that changes one handle leaves the other readers and the tags alone. -/
theorem waits_update {i : ι} {w : Waiter}
    (hs : s'.calls.waiters.waiters = Function.update s.calls.waiters.waiters i w)
    (hw : ¬ s.Returned i → w.reader ≠ .returned)
    (htag : w.handle.tag = (s.waiter i).handle.tag) (k : ι) (hk : ¬ s.Returned k) :
    ¬ s'.Returned k ∧ (s'.waiter k).handle.tag = (s.waiter k).handle.tag := by
  rw [Returned, waiter, hs]
  by_cases hki : k = i
  · subst hki
    rw [Function.update_self]
    exact ⟨hw hk, htag⟩
  · rw [Function.update_of_ne hki]
    exact ⟨hk, rfl⟩

/-- A reader goes on. -/
theorem Inv.read (h : s.Inv strHash args) {i : ι} {w : Waiters ι}
    (hs : s.calls.waiters.step (.wait i) = some w ∨ s.calls.waiters.step (.wakeUp i) = some w) :
    let s' := { s with calls := { s.calls with waiters := w } }
    s'.Inv strHash args ∧ s.Advances strHash args s' := by
  have hlocked : (s.waiter i).locked = true → s.calling = some i ∨ ¬ s.calls.Early i ∧
      s.calls.Gone strHash args i ∧ s.calls.delivering.map (·.1) ≠ some i := by
    intro hl
    by_cases hcall : s.calling = some i
    · exact Or.inl hcall
    · obtain ⟨hearly, hgone⟩ := h.responding i ⟨hl, hcall⟩
      exact Or.inr ⟨hearly, hgone, fun hd => (h.delivering i hd).2.2 ⟨hl, hcall⟩⟩
  have hclosed : s.Closed strHash args i → (s.waiter i).locked = true → s.calling = some i :=
    fun hc hl => by_contra fun hcall => hc.2.2.2 ⟨hl, hcall⟩
  have hcalling : ∀ k, s.calling = some k →
      k = i ∧ (s.waiter i).locked = true ∨ k ≠ i ∧ s.calling = some k := by
    intro k hk
    by_cases hki : k = i
    · subst hki
      exact Or.inl ⟨rfl, h.calling k hk⟩
    · exact Or.inr ⟨hki, hk⟩
  obtain ⟨hwaits, ⟨c, rfl⟩ | rfl⟩ := wait_cases hs
  · obtain ⟨hinv, hret, hcl⟩ := h.setWaiter (c := c) (w := { s.waiter i with reader := .returned })
      s.calls.delivering s.pass s.calling (fun _ => rfl) (fun _ => id) hlocked hclosed
      (fun _ _ _ => id) hcalling h.pass
    exact ⟨hinv, hret, hcl, Or.inr (Or.inl ⟨i, hwaits, by simp [Returned, waiter, Waiters.set]⟩)⟩
  · obtain ⟨hinv, hret, hcl⟩ := h.setWaiter (c := s.calls.waiters.condition)
      (w := { s.waiter i with reader := .blocked }) s.calls.delivering s.pass s.calling
      (fun hr => absurd hr hwaits) (fun _ => id) hlocked hclosed (fun _ _ _ => id) hcalling h.pass
    exact ⟨hinv, hret, hcl, Or.inl fun hp =>
      hp.mono rfl (waits_update rfl (fun _ => by simp) rfl) fun _ _ => id⟩

/-- The poll thread stores a response, and locks the handle. -/
theorem Inv.deliver (h : s.Inv strHash args) {i : ι} {response : List UInt8}
    (hdelivering : s.calls.delivering = some (i, response)) {w : Waiters ι}
    (hs : s.calls.waiters.step (.write i response) = some w) :
    let s' := { s with calls := { s.calls with waiters := w, delivering := none } }
    s'.Inv strHash args ∧ s.Advances strHash args s' := by
  have hcopy : s.calls.delivering.map (·.1) = some i := by rw [hdelivering]; rfl
  obtain ⟨hearly, hgone, -⟩ := h.delivering i hcopy
  simp only [Waiters.step] at hs
  split at hs
  · cases hs
  · rename_i hunlocked
    obtain ⟨⟨n, handle⟩, hw, rfl⟩ := Option.map_eq_some_iff.mp hs
    have htag : handle.tag = (s.waiter i).handle.tag := by
      rcases ResponseHandle.write_cases hw with ⟨-, rfl⟩ | ⟨-, -, htag⟩
      · rfl
      · exact htag
    have hcalling : ∀ k, s.calling = some k → k ≠ i ∧ s.calling = some k :=
      fun k hk => ⟨fun hki => hunlocked (hki ▸ h.calling k hk), hk⟩
    obtain ⟨hinv, hret, hcl⟩ := h.setWaiter (i := i) (c := s.calls.waiters.condition)
      (w := { s.waiter i with handle, locked := (s.waiter i).handle.state ≠ .S_TIME_OUT })
      none s.pass s.calling id (by simp) (fun _ => Or.inr ⟨hearly, hgone, by simp⟩)
      (fun hc => absurd hcopy hc.2.2.1) (fun _ _ _ => id) (fun k hk => Or.inr (hcalling k hk))
      h.pass
    exact ⟨hinv, hret, hcl, Or.inl fun hp =>
      hp.mono rfl (waits_update rfl id htag) fun _ _ => id⟩

/-- The poll thread notifies, and unlocks the handle. -/
theorem Inv.respond (h : s.Inv strHash args) {i : ι} (hcall : s.calling ≠ some i) {w : Waiters ι}
    (hs : s.calls.waiters.step (.notify i) = some w) :
    let s' := { s with calls := { s.calls with waiters := w } }
    s'.Inv strHash args ∧ s.Advances strHash args s' := by
  simp only [Waiters.step] at hs
  split at hs
  · rename_i hlocked
    cases hs
    have hresponding : s.Responding i := ⟨hlocked, hcall⟩
    obtain ⟨hearly, hgone⟩ := h.responding i hresponding
    obtain ⟨hinv, hret, hcl⟩ := h.setWaiter (i := i)
      (c := s.calls.waiters.condition.notify (s.waiter i).handle.tag)
      (w := { s.waiter i with locked := false, notified := true })
      s.calls.delivering s.pass s.calling id (fun _ => id) (fun hl => by cases hl)
      (fun _ hl => by cases hl) (fun _ _ _ => id)
      (fun k hk => Or.inr ⟨fun hki => hcall (hki ▸ hk), hk⟩) h.pass
    refine ⟨hinv, hret, hcl, Or.inr (Or.inr ⟨i, fun hc => hc.2.2.2 hresponding, hearly, hgone,
      fun hd => (h.delivering i hd).2.2 hresponding, fun hr => ?_⟩)⟩
    simp [Responding, waiter, Waiters.set] at hr
  · cases hs

/-- The timer thread stores a time-out. -/
theorem Inv.timeOut (h : s.Inv strHash args) {i : ι} {pass : List ι} (hcall : s.calling = none)
    (hpass : s.pass = i :: pass) {w : Waiters ι}
    (hs : s.calls.waiters.step (.timeOut i) = some w) :
    let s' := { s with calls := { s.calls with waiters := w }, pass, calling := some i }
    s'.Inv strHash args ∧ s.Advances strHash args s' := by
  simp only [Waiters.step] at hs
  split at hs
  · cases hs
  · cases hs
    have hlast := h.pass (Or.inr (by rw [hpass]; exact List.cons_ne_nil _ _))
    rw [hcall, hpass] at hlast
    obtain ⟨hinv, hret, hcl⟩ := h.setWaiter (i := i) (c := s.calls.waiters.condition)
      (w := { s.waiter i with handle := (s.waiter i).handle.timeOut, locked := true })
      s.calls.delivering pass (some i) id (fun _ => id) (fun _ => Or.inl rfl) (fun _ _ => rfl)
      (fun k _ _ hk => by rw [hcall] at hk; cases hk)
      (fun k hk => Or.inl ⟨(Option.some.inj hk).symm, rfl⟩) fun _ => hlast
    have htag : (s.waiter i).handle.timeOut.tag = (s.waiter i).handle.tag :=
      ResponseHandle.timeOut_tag _
    exact ⟨hinv, hret, hcl, Or.inl fun hp => hp.mono rfl (waits_update rfl id htag) fun _ _ _ =>
      Or.inl (Option.some_ne_none i)⟩

/-- The timer thread notifies.  At the end of a pass the slot holds the tag of
its last handle. -/
theorem Inv.notify (h : s.Inv strHash args) {i : ι} (hcall : s.calling = some i) {w : Waiters ι}
    (hs : s.calls.waiters.step (.notify i) = some w) :
    let s' := { s with calls := { s.calls with waiters := w }, calling := none }
    s'.Inv strHash args ∧ s.Advances strHash args s' := by
  simp only [Waiters.step] at hs
  split at hs
  · cases hs
    have hlast := h.pass (Or.inl (by rw [hcall]; exact Option.some_ne_none i))
    rw [hcall] at hlast
    have hpass : s.pass ≠ [] → s.last = s.pass.getLast? := by
      intro hne
      obtain ⟨j, pass, hp⟩ := List.exists_cons_of_ne_nil hne
      rw [hlast, hp, Option.toList_some, List.singleton_append, List.getLast?_cons_cons]
    obtain ⟨hinv, hret, hcl⟩ := h.setWaiter (i := i)
      (c := s.calls.waiters.condition.notify (s.waiter i).handle.tag)
      (w := { s.waiter i with locked := false, notified := true }) s.calls.delivering s.pass none
      id (fun _ => id) (fun hl => by cases hl) (fun _ hl => by cases hl)
      (fun k hki _ hk => absurd (Option.some.inj (hk.symm.trans hcall)) hki) (by simp)
      (fun hp => hpass (hp.resolve_left fun hne => hne rfl))
    refine ⟨hinv, hret, hcl, Or.inl fun hp =>
      hp.mono rfl (waits_update rfl id rfl) fun k hk _ => ?_⟩
    by_cases hnil : s.pass = []
    · rw [hnil] at hlast
      obtain rfl : i = k := Option.some.inj (hlast.symm.trans hk)
      exact Or.inr (Or.inr rfl)
    · exact Or.inr (Or.inl hnil)
  · cases hs

/-- A step of a caller, the poll thread or the world. -/
theorem Inv.client (h : s.Inv strHash args) {a : SendCalls.Action ι} (hothers : s.OfOthers a)
    {calls : SendCalls ι} (hs : s.calls.step strHash args a = some calls) :
    ({ s with calls } : TimedCalls ι).Inv strHash args ∧
      s.Advances strHash args { s with calls } := by
  -- Nothing that the invariant looks at.
  have hsame : ∀ (fd : Int) (writeCache : BufferCache),
      let s' := { s with calls := { s.calls with fd, writeCache } }
      s'.Inv strHash args ∧ s.Advances strHash args s' := fun fd writeCache =>
    ⟨⟨h.entry, h.delivering, h.responding, h.calling, h.exited, h.last, h.pass⟩, fun _ => id,
      fun _ => id, Or.inl id⟩
  cases a with
  | test i =>
    simp only [SendCalls.step] at hs
    split at hs
    · rename_i hidle
      cases hs
      refine h.setStage _ s.calls.fd s.calls.writeCache (fun _ => Or.inl hidle) (fun hexited => ?_)
        fun hreading => by rw [hidle] at hreading; cases hreading
      split at hexited <;> rcases hexited with hexited | hexited <;> cases hexited
    · cases hs
  | register i =>
    simp only [SendCalls.step] at hs
    split at hs
    · rename_i hstage
      cases hs
      exact h.register hstage
    · cases hs
  | writePackage i =>
    simp only [SendCalls.step] at hs
    split at hs
    · rename_i hstage
      obtain ⟨r, -, rfl⟩ := Option.map_eq_some_iff.mp hs
      refine h.setStage _ s.calls.fd r.2 (fun hearly => ?_) (fun hexited => ?_)
        fun hreading => by rw [hstage] at hreading; cases hreading
      · split at hearly <;> rcases hearly with hearly | hearly <;> cases hearly
      · split at hexited <;> rcases hexited with hexited | hexited <;> cases hexited
    · cases hs
  | wait i =>
    simp only [SendCalls.step] at hs
    split at hs
    · obtain ⟨w, hw, rfl⟩ := Option.map_eq_some_iff.mp hs
      exact h.read (Or.inl hw)
    · cases hs
  | wakeUp i =>
    simp only [SendCalls.step] at hs
    split at hs
    · obtain ⟨w, hw, rfl⟩ := Option.map_eq_some_iff.mp hs
      exact h.read (Or.inr hw)
    · cases hs
  | finish i =>
    simp only [SendCalls.step] at hs
    split at hs
    · rename_i hguard
      obtain ⟨r, -, rfl⟩ := Option.map_eq_some_iff.mp hs
      exact h.setStage _ s.calls.fd s.calls.writeCache (by simp) (fun _ => hguard.2.1)
        fun _ => hguard.2.1
    · cases hs
  | receive tag response =>
    simp only [SendCalls.step] at hs
    split at hs
    · split at hs
      · rename_i i hentry
        cases hs
        exact h.receive hentry response
      · cases hs
        exact hsame s.calls.fd s.calls.writeCache
    · cases hs
  | deliver =>
    simp only [SendCalls.step] at hs
    split at hs
    · rename_i i response hdelivering
      obtain ⟨w, hw, rfl⟩ := Option.map_eq_some_iff.mp hs
      exact h.deliver hdelivering hw
    · cases hs
  | timeOut i => exact absurd hothers id
  | notify i =>
    obtain ⟨w, hw, rfl⟩ := Option.map_eq_some_iff.mp hs
    exact h.respond hothers hw
  | useCache u =>
    obtain ⟨writeCache, -, rfl⟩ := Option.map_eq_some_iff.mp hs
    exact hsame s.calls.fd writeCache
  | closeConnection =>
    cases hs
    exact hsame (-1) s.calls.writeCache

/-- A step that begins no pass. -/
theorem Inv.advances (h : s.Inv strHash args) {a : Action ι} (ha : ∀ timers, a ≠ .collect timers)
    (hs : s.step strHash args a = some s') : s'.Inv strHash args ∧ s.Advances strHash args s' := by
  cases a with
  | collect timers => exact absurd rfl (ha timers)
  | timeOut =>
    simp only [step] at hs
    split at hs
    · rename_i i pass hcall hpass
      obtain ⟨calls, hcalls, rfl⟩ := Option.map_eq_some_iff.mp hs
      simp only [SendCalls.step] at hcalls
      split at hcalls
      · obtain ⟨w, hw, rfl⟩ := Option.map_eq_some_iff.mp hcalls
        exact h.timeOut hcall hpass hw
      · cases hcalls
    · cases hs
  | notify =>
    simp only [step] at hs
    split at hs
    · rename_i i hcall
      obtain ⟨calls, hcalls, rfl⟩ := Option.map_eq_some_iff.mp hs
      obtain ⟨w, hw, rfl⟩ := Option.map_eq_some_iff.mp hcalls
      exact h.notify hcall hw
    · cases hs
  | client a =>
    simp only [step] at hs
    split at hs
    · rename_i hothers
      obtain ⟨calls, hcalls, rfl⟩ := Option.map_eq_some_iff.mp hs
      exact h.client hothers hcalls
    · cases hs

/-! ## A pass begins -/

/-- Where no reader can go on, no promise is left. -/
theorem Inv.not_promised (h : s.Inv strHash args) (hcall : s.calling = none) (hpass : s.pass = [])
    (hrest : ∀ k, s.calls.step strHash args (.wait k) = none ∧
      s.calls.step strHash args (.wakeUp k) = none) : ¬ s.Promised := by
  rintro ⟨k, hk, hwaits, hcall' | hpass' | hready⟩
  · exact hcall' hcall
  · exact hpass' hpass
  · have hstage : s.calls.stage k = .reading := (h.last k hk).resolve_left hwaits
    obtain ⟨hwait, hwakeUp⟩ := hrest k
    simp only [SendCalls.step, if_pos hstage, Option.map_eq_none_iff] at hwait hwakeUp
    cases hreader : (s.waiter k).reader with
    | starting =>
      simp only [Waiters.step, hreader, if_true] at hwait
      split at hwait <;> cases hwait
    | blocked =>
      simp [Waiters.step, hreader, Condition.wait?, hready] at hwakeUp
    | returned => exact hwaits hreader

theorem Inv.collect (h : s.Inv strHash args) {timers : List ι}
    (hs : s.step strHash args (.collect timers) = some s') : s'.Inv strHash args := by
  simp only [step] at hs
  split at hs
  · rename_i hguard
    obtain ⟨hcall, -, hruns⟩ := hguard
    cases hs
    refine ⟨h.entry, h.delivering, h.responding, h.calling, h.exited, fun k hk => ?_, fun _ => ?_⟩
    · rcases hruns k (List.mem_of_getLast? hk) with hreading | ⟨hexited, -⟩
      · exact Or.inr hreading
      · exact Or.inl (h.exited k hexited)
    · dsimp only
      rw [hcall]
      rfl
  · cases hs

/-- A pass keeps the rank, and one with the timer of a call that waits takes it
down. -/
theorem Inv.effort_collect [Fintype ι] (h : s.Inv strHash args) {i : ι} {timers : List ι}
    (hok : s.Prompt strHash args i (.collect timers))
    (hs : s.step strHash args (.collect timers) = some s') :
    s'.effort strHash args ≤ s.effort strHash args ∧
      (i ∈ timers → ¬ s.Returned i → s'.effort strHash args < s.effort strHash args) := by
  simp only [step] at hs
  split at hs
  · rename_i hguard
    obtain ⟨hcall, hpass, -⟩ := hguard
    cases hs
    have hnot := h.not_promised hcall hpass hok.1
    have howed : ∀ k, ({ s with pass := timers, last := timers.getLast? } : TimedCalls ι).owed
        strHash args k = s.owed strHash args k := fun _ => rfl
    simp only [effort, howed, if_neg hnot]
    refine ⟨by split_ifs <;> omega, fun hi hwaits => ?_⟩
    have hne : timers ≠ [] := List.ne_nil_of_mem hi
    obtain ⟨k, hk⟩ := Option.ne_none_iff_exists'.mp (mt List.getLast?_eq_none_iff.mp hne)
    have hpromised : ({ s with pass := timers, last := timers.getLast? } :
        TimedCalls ι).Promised := ⟨k, hk, hok.2 hi hwaits k hk, Or.inr (Or.inl hne)⟩
    rw [if_pos hpromised]
    omega
  · cases hs

theorem Inv.step (h : s.Inv strHash args) {a : Action ι} (hs : s.step strHash args a = some s') :
    s'.Inv strHash args ∧ ∀ i, s.Returned i → s'.Returned i := by
  by_cases ha : ∃ timers, a = .collect timers
  · obtain ⟨timers, rfl⟩ := ha
    refine ⟨h.collect hs, fun i hi => ?_⟩
    simp only [TimedCalls.step] at hs
    split at hs
    · cases hs
      exact hi
    · cases hs
  · obtain ⟨hinv, hadv⟩ := h.advances (fun timers he => ha ⟨timers, he⟩) hs
    exact ⟨hinv, hadv.returned⟩

/-- While a call waits, no step takes the rank up, and a pass with its timer
takes it down. -/
theorem Inv.effort_step [Fintype ι] (h : s.Inv strHash args) {i : ι} {a : Action ι}
    (hok : s.Prompt strHash args i a) (hs : s.step strHash args a = some s') :
    s'.effort strHash args ≤ s.effort strHash args ∧
      (ofPass i a = true → ¬ s.Returned i → s'.effort strHash args < s.effort strHash args) := by
  cases a with
  | collect timers =>
    obtain ⟨hle, hlt⟩ := h.effort_collect hok hs
    exact ⟨hle, fun hi => hlt (of_decide_eq_true hi)⟩
  | client a => exact ⟨(h.advances (by simp) hs).2.effort_le, (by simp [ofPass])⟩
  | timeOut => exact ⟨(h.advances (by simp) hs).2.effort_le, (by simp [ofPass])⟩
  | notify => exact ⟨(h.advances (by simp) hs).2.effort_le, (by simp [ofPass])⟩

theorem effort_le_card [Fintype ι] (s : TimedCalls ι) :
    s.effort strHash args ≤ 4 * Fintype.card ι + 1 := by
  have howed : ∀ i, s.owed strHash args i ≤ 2 := by
    intro i
    unfold owed
    split_ifs <;> omega
  have hsum : ∑ i, s.owed strHash args i ≤ Fintype.card ι * 2 := by
    exact Finset.sum_le_card_nsmul _ _ _ fun i _ => howed i
  unfold effort
  split_ifs <;> omega

/-- From every state of every run: a call that still waits behind a further run
of prompt passes has had its timer in `effort` of them at most. -/
theorem timeOuts_le_of_waits [Fintype ι] {fd : Int} {writeCache : BufferCache}
    (h : Reachable (step strHash args) (start strHash args fd writeCache) s) {i : ι}
    {as : List (Action ι)}
    (hr : runIf (step strHash args) (Prompt strHash args i) s as = some s')
    (hwaits : ¬ s'.Returned i) :
    as.countP (ofPass i) ≤ s.effort strHash args ∧
      s.effort strHash args ≤ 4 * Fintype.card ι + 1 := by
  have hinv : s.Inv strHash args :=
    h.invariant (inv_start fd writeCache) fun _ _ _ hs _ hstep => (hs.step hstep).1
  refine ⟨?_, s.effort_le_card⟩
  by_contra hlong
  have hpasses : Passes (step strHash args) (Prompt strHash args i)
      (fun s => s.Inv strHash args ∧ s.Returned i) s as := by
    by_cases hi : s.Returned i
    · exact ⟨[], as, s, rfl, rfl, hinv, hi⟩
    refine passes_of_rank (ofPass i) (fun s => s.Inv strHash args ∧ ¬ s.Returned i)
      (effort strHash args) (fun s a s' hs hok hmine hstep => ?_)
      (fun s a s' hs hok _ hstep => ?_) ⟨hinv, hi⟩ hr (by omega)
    · obtain ⟨hinv, -⟩ := hs.1.step hstep
      by_cases hi : s'.Returned i
      · exact Or.inl ⟨hinv, hi⟩
      · exact Or.inr ⟨⟨hinv, hi⟩, (hs.1.effort_step hok hstep).2 hmine hs.2⟩
    · obtain ⟨hinv, -⟩ := hs.1.step hstep
      by_cases hi : s'.Returned i
      · exact Or.inl ⟨hinv, hi⟩
      · exact Or.inr ⟨⟨hinv, hi⟩, (hs.1.effort_step hok hstep).1⟩
  -- The reader returns on the way, and does not wait again.
  have hreturned := hpasses.last hr fun s a s' hs _ hstep =>
    ⟨(hs.1.step hstep).1, (hs.1.step hstep).2 i hs.2⟩
  exact hwaits hreturned.2

end Step

/-- Both calls are timed out in one pass, and the first misses its wake-up.  It
waits for the next pass with its timer. -/
theorem timeOuts_le_of_waits_missed :
    ∃ s s' : TimedCalls (Fin 2), ((s.waiter 0).notified = true ∧ s.ready = -1 ∧ s'.ready = 7) ∧
      [Action.collect [0], .timeOut, .notify].countP (ofPass 0) ≤
        s.effort (fun _ => 0) SendCalls.addArgs ∧
      s.effort (fun _ => 0) SendCalls.addArgs ≤ 4 * Fintype.card (Fin 2) + 1 := by
  obtain ⟨s, hs, hmissed, s', hr, hwaits, hready⟩ : ∃ s, Reachable
      (step (fun _ => 0) SendCalls.addArgs)
      (start (fun _ => 0) SendCalls.addArgs 5 (BufferCacheBase.new 64)) s ∧
      ((s.waiter 0).notified = true ∧ s.ready = -1) ∧
      ∃ s' ∈ runIf (step (fun _ => 0) SendCalls.addArgs) (Prompt (fun _ => 0) SendCalls.addArgs 0)
        s [.collect [0], .timeOut, .notify], ¬ s'.Returned 0 ∧ s'.ready = 7 :=
    exists_reachable_of_run
      [.client (.test 0), .client (.register 0), .client (.writePackage 0), .client (.wait 0),
        .client (.test 1), .client (.register 1), .client (.writePackage 1), .client (.wait 1),
        .collect [0, 1], .timeOut, .notify, .timeOut, .notify, .client (.wakeUp 1),
        .client (.finish 1)]
      (by decide +kernel)
  exact ⟨s, s', ⟨hmissed.1, hmissed.2, hready⟩, timeOuts_le_of_waits hs hr hwaits⟩

end TimedCalls

end CppRpc
