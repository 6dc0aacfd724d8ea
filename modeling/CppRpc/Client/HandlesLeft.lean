import Mathlib.Data.Set.Card
import CppRpc.Client.Requests
import CppRpc.Client.Wakeup
import CppRpc.Net.Socket
import CppRpc.Util.PackageWrite

/-!
# The handles that `send_request` leaves behind

The body of `ClientService::send_request` without the loop behind the
registration: the test of `m_fd`, the entry in `m_response_handles`, the
`write_package`, and the `read` of the handle, with its timer and its wait.
Any number of calls run it, with any methods, query ids and payloads, beside
the poll thread, the timer thread and other uses of the write cache.  The poll
thread takes an entry out of the map for a response and writes the response
into its handle; nobody else takes an entry out.

`NothingLeft` is the property of a state: a call that has left the function has
no entry in the map and no timer, and the entries are not more than the calls
in progress.  `Answered` is the condition: each way out of the function that is
not the one of a response finds the entry gone.  `nothingLeft_of_answered` is
the result, and `timeout_leaves_handle` a call that times out.
-/

namespace CppRpc

open CData Runs BufferCacheBase

/-- Where a call is. -/
inductive CallStage
  | idle
  /-- Behind the test of `m_fd`. -/
  | registering
  | writing
  /-- In `handle->read`, behind the start of the timer. -/
  | reading
  /-- `S_DONE` is the normal return, the others are the errors thrown. -/
  | exited (state : State)
  deriving DecidableEq

/-- The client.  `responseHandles` is `m_response_handles`, with the call in
place of its handle, and `delivering` the response that the poll thread is about
to write. -/
structure SendCalls (ι : Type) where
  fd : Int
  writeCache : BufferCache
  waiters : Waiters ι
  responseHandles : BitVec 32 → Option ι
  stage : ι → CallStage
  delivering : Option (ι × List UInt8)

/-- The arguments of a call. -/
structure SendArgs where
  request : Request
  buf : List UInt8
  len : Nat

namespace SendCalls

variable {ι : Type}

inductive Action (ι : Type)
  | test (i : ι)
  | register (i : ι)
  | writePackage (i : ι)
  | wait (i : ι)
  | wakeUp (i : ι)
  /-- The end of `handle->read`, and of the function. -/
  | finish (i : ι)
  /-- A response with this tag arrives. -/
  | receive (tag : BitVec 32) (response : List UInt8)
  | deliver
  | timeOut (i : ι)
  | notify (i : ι)
  | useCache (use : Use)
  | closeConnection

section Step

variable (strHash : String → BitVec 64) (args : ι → SendArgs)

/-- The tag of a call. -/
def tagOf (i : ι) : BitVec 32 := ClientService.hash strHash (args i).request

/-- A client with this connection and this write cache, and no call yet. -/
def start (fd : Int) (writeCache : BufferCache) : SendCalls ι :=
  ⟨fd, writeCache, .new (tagOf strHash args), fun _ => none, fun _ => .idle, none⟩

/-- The entry of the call is not in the map. -/
def Gone (s : SendCalls ι) (i : ι) : Prop := s.responseHandles (tagOf strHash args i) ≠ some i

/-- The timer of the handle has been started, and the handle is still there. -/
def TimerRuns (s : SendCalls ι) (i : ι) : Prop :=
  s.stage i = .reading ∨
    (s.stage i = .exited .S_DONE ∨ s.stage i = .exited .S_TIME_OUT) ∧
      (¬ s.Gone strHash args i ∨ s.delivering.map (·.1) = some i)

variable [DecidableEq ι]

instance (s : SendCalls ι) : DecidablePred (s.Gone strHash args) :=
  fun _ => inferInstanceAs (Decidable (_ ≠ _))

instance (s : SendCalls ι) : DecidablePred (s.TimerRuns strHash args) :=
  fun _ => inferInstanceAs (Decidable (_ ∨ _))

def setStage (s : SendCalls ι) (i : ι) (stage : CallStage) : SendCalls ι :=
  { s with stage := Function.update s.stage i stage }

/-- One step. -/
def step (s : SendCalls ι) : Action ι → Option (SendCalls ι)
  | .test i =>
      if s.stage i = .idle then
        some (s.setStage i (if s.fd < 0 then .exited .S_NO_CONNECTION else .registering))
      else none
  | .register i =>
      if s.stage i = .registering then
        some { s.setStage i .writing with
          responseHandles := Function.update s.responseHandles (tagOf strHash args i) (some i) }
      else none
  | .writePackage i =>
      if s.stage i = .writing then
        (s.writeCache.writePackage (args i).buf (args i).len).map fun r =>
          { s.setStage i (if r.1 then .reading else .exited .S_LOCAL_CACHE_FULL) with
            writeCache := r.2 }
      else none
  | .wait i =>
      if s.stage i = .reading then
        (s.waiters.step (.wait i)).map fun waiters => { s with waiters }
      else none
  | .wakeUp i =>
      if s.stage i = .reading then
        (s.waiters.step (.wakeUp i)).map fun waiters => { s with waiters }
      else none
  | .finish i =>
      let w := s.waiters.waiters i
      if s.stage i = .reading ∧ w.reader = .returned ∧ w.locked = false then
        (w.handle.readOut (args i).buf BLOCK_SIZE).map fun r =>
          s.setStage i (.exited (if r.1 = 0 then .S_TIME_OUT else .S_DONE))
      else none
  | .receive tag response =>
      if s.delivering = none then
        match s.responseHandles tag with
        | some i => some { s with
            responseHandles := Function.update s.responseHandles tag none
            delivering := some (i, response) }
        | none => some s
      else none
  | .deliver =>
      match s.delivering with
      | some (i, response) =>
          (s.waiters.step (.write i response)).map fun waiters =>
            { s with waiters, delivering := none }
      | none => none
  | .timeOut i =>
      if s.TimerRuns strHash args i then
        (s.waiters.step (.timeOut i)).map fun waiters => { s with waiters }
      else none
  | .notify i => (s.waiters.step (.notify i)).map fun waiters => { s with waiters }
  | .useCache u => (use s.writeCache u).map fun writeCache => { s with writeCache }
  | .closeConnection => some { s with fd := -1 }

/-- The call is in the function. -/
def InProgress (s : SendCalls ι) (i : ι) : Prop :=
  s.stage i ≠ .idle ∧ ∀ state, s.stage i ≠ .exited state

/-- The property. -/
structure NothingLeft (s : SendCalls ι) : Prop where
  noEntry : ∀ i state, s.stage i = .exited state → ∀ tag, s.responseHandles tag ≠ some i
  noTimer : ∀ i state, s.stage i = .exited state → (∀ response, s.delivering ≠ some (i, response)) →
    s.step strHash args (.timeOut i) = none
  bounded : { tag | s.responseHandles tag ≠ none }.encard ≤ { i | s.InProgress i }.encard

/-- The condition on the state before a step: the write cache takes the
request, the timer ends a wait, and a reader finds the tag of a handle that
waits in the slot, only if the entry has gone. -/
def Answered (s : SendCalls ι) : Action ι → Prop
  | .writePackage i =>
      (∃ r ∈ s.writeCache.writePackage (args i).buf (args i).len, r.1 = true) ∨
        s.Gone strHash args i
  | .timeOut i =>
      (s.waiters.waiters i).handle.state = .S_WAITING → s.Gone strHash args i
  | .wait i | .wakeUp i =>
      s.waiters.condition.ready = (s.waiters.waiters i).handle.tag →
        (s.waiters.waiters i).handle.state = .S_WAITING → s.Gone strHash args i
  | _ => True

instance (s : SendCalls ι) : DecidablePred (s.Answered strHash args)
  | .writePackage _ => inferInstanceAs (Decidable ((∃ r ∈ _, _) ∨ _))
  | .timeOut _ => inferInstanceAs (Decidable (_ → _))
  | .wait _ | .wakeUp _ => inferInstanceAs (Decidable (_ → _ → _))
  | .test _ | .register _ | .finish _ | .receive _ _ | .deliver | .notify _ | .useCache _
  | .closeConnection => isTrue trivial

/-! ## The invariant -/

/-- The call has not made its entry yet. -/
def Early (s : SendCalls ι) (i : ι) : Prop := s.stage i = .idle ∨ s.stage i = .registering

/-- The invariant. -/
structure Inv (s : SendCalls ι) : Prop where
  entry : ∀ tag i, s.responseHandles tag = some i →
    tag = tagOf strHash args i ∧ (s.stage i = .writing ∨ s.stage i = .reading)
  early : ∀ i, s.Early i →
    (s.waiters.waiters i).handle.state = .S_WAITING ∧ (s.waiters.waiters i).reader = .starting
  settled : ∀ i, ((s.waiters.waiters i).handle.state ≠ .S_WAITING ∨
    (s.waiters.waiters i).reader = .returned) → s.Gone strHash args i
  delivering : ∀ i response, s.delivering = some (i, response) →
    ¬ s.Early i ∧ s.Gone strHash args i

variable {strHash args} {s s' : SendCalls ι}

omit [DecidableEq ι] in
theorem inv_start (fd : Int) (writeCache : BufferCache) :
    (start strHash args fd writeCache).Inv strHash args :=
  ⟨nofun, fun _ _ => ⟨rfl, rfl⟩, fun _ _ => nofun, nofun⟩

omit [DecidableEq ι] in
/-- An entry that has gone is under no tag. -/
theorem Inv.forall_ne (h : s.Inv strHash args) {i : ι} (hgone : s.Gone strHash args i)
    (tag : BitVec 32) : s.responseHandles tag ≠ some i := by
  intro hentry
  obtain ⟨rfl, -⟩ := h.entry tag i hentry
  exact hgone hentry

omit [DecidableEq ι] in
/-- Only a call that writes or reads has an entry. -/
theorem Inv.noEntry_of_stage (h : s.Inv strHash args) {i : ι} (hwriting : s.stage i ≠ .writing)
    (hreading : s.stage i ≠ .reading) (tag : BitVec 32) : s.responseHandles tag ≠ some i :=
  fun hentry => (h.entry tag i hentry).2.elim hwriting hreading

omit [DecidableEq ι] in
theorem not_early {i : ι} (h : s.stage i = .writing ∨ s.stage i = .reading) : ¬ s.Early i := by
  rintro (hearly | hearly) <;> rw [hearly] at h <;> rcases h with h | h <;> cases h

/-- A call moves on.  It does not go back before its entry, and when it exits
the entry has gone. -/
theorem Inv.setStage (h : s.Inv strHash args) {i : ι} {stage : CallStage}
    (hearly : stage = .idle ∨ stage = .registering → s.Early i)
    (hentry : s.Gone strHash args i ∨ stage = .writing ∨ stage = .reading) :
    (s.setStage i stage).Inv strHash args := by
  have hback : ∀ k, (s.setStage i stage).Early k → s.Early k := by
    intro k hk
    unfold Early SendCalls.setStage at hk
    by_cases hki : k = i
    · subst hki
      simp only [Function.update_self] at hk
      exact hearly hk
    · simp only [Function.update_of_ne hki] at hk
      exact hk
  refine ⟨fun tag k hk => ?_, fun k hk => h.early k (hback k hk), h.settled,
    fun k response hk => ?_⟩
  · obtain ⟨htag, hstage⟩ := h.entry tag k hk
    refine ⟨htag, ?_⟩
    show Function.update s.stage i stage k = .writing ∨ Function.update s.stage i stage k = .reading
    by_cases hki : k = i
    · subst hki
      rw [Function.update_self]
      rcases hentry with hgone | hstage
      · exact absurd hk (h.forall_ne hgone tag)
      · exact hstage
    · rw [Function.update_of_ne hki]
      exact hstage
  · obtain ⟨hearly, hgone⟩ := h.delivering k response hk
    exact ⟨fun hk => hearly (hback k hk), hgone⟩

/-- A handle or its reader moves on; the entry has gone once the handle is
settled or the reader has returned. -/
theorem Inv.setWaiter (h : s.Inv strHash args) {i : ι} {w : Waiter} {c : Condition}
    (hearly : s.Early i → w.handle.state = .S_WAITING ∧ w.reader = .starting)
    (hsettled : w.handle.state ≠ .S_WAITING ∨ w.reader = .returned → s.Gone strHash args i) :
    ({ s with waiters := { s.waiters.set i w with condition := c } } : SendCalls ι).Inv
      strHash args := by
  refine ⟨h.entry, ?_, ?_, h.delivering⟩
  · exact (Function.forall_update_iff s.waiters.waiters fun k w =>
      s.Early k → w.handle.state = .S_WAITING ∧ w.reader = .starting).mpr
        ⟨hearly, fun k _ => h.early k⟩
  · exact (Function.forall_update_iff s.waiters.waiters fun k w =>
      w.handle.state ≠ .S_WAITING ∨ w.reader = .returned → s.Gone strHash args k).mpr
        ⟨hsettled, fun k _ => h.settled k⟩

/-- What the two tests in `Condition::wait` do. -/
theorem reader_of_step {w w' : Waiters ι} {i : ι}
    (hs : w.step (.wait i) = some w' ∨ w.step (.wakeUp i) = some w') :
    ∃ reader c, w' = { w.set i { w.waiters i with reader } with condition := c } ∧
      (reader = .returned → w.condition.ready = (w.waiters i).handle.tag) := by
  have hready : ∀ c, w.condition.wait? (w.waiters i).handle.tag = some c →
      w.condition.ready = (w.waiters i).handle.tag := by
    intro c hc
    unfold Condition.wait? at hc
    split at hc
    · assumption
    · cases hc
  rcases hs with hs | hs
  · simp only [Waiters.step] at hs
    split at hs
    · split at hs
      · rename_i c hc
        cases hs
        exact ⟨.returned, c, rfl, fun _ => hready c hc⟩
      · cases hs
        exact ⟨.blocked, w.condition, rfl, fun hreturned => (by cases hreturned)⟩
    · cases hs
  · simp only [Waiters.step] at hs
    split at hs
    · obtain ⟨c, hc, rfl⟩ := Option.map_eq_some_iff.mp hs
      exact ⟨.returned, c, rfl, fun _ => hready c hc⟩
    · cases hs

/-- A reader that leaves the wait finds its handle settled, or the entry
gone. -/
theorem Inv.reader (h : s.Inv strHash args) {i : ι} (hstage : s.stage i = .reading)
    (hok : s.waiters.condition.ready = (s.waiters.waiters i).handle.tag →
      (s.waiters.waiters i).handle.state = .S_WAITING → s.Gone strHash args i) {w : Waiters ι}
    (hs : s.waiters.step (.wait i) = some w ∨ s.waiters.step (.wakeUp i) = some w) :
    ({ s with waiters := w } : SendCalls ι).Inv strHash args := by
  obtain ⟨reader, c, rfl, hready⟩ := reader_of_step hs
  apply h.setWaiter
  · exact fun hearly => absurd hearly (not_early (Or.inr hstage))
  · rintro (hstate | hreturned)
    · exact h.settled i (Or.inl hstate)
    · by_cases hstate : (s.waiters.waiters i).handle.state = .S_WAITING
      · exact hok (hready hreturned) hstate
      · exact h.settled i (Or.inl hstate)

theorem Inv.register (h : s.Inv strHash args) {i : ι} (hstage : s.stage i = .registering) :
    ({ s.setStage i .writing with
      responseHandles := Function.update s.responseHandles (tagOf strHash args i) (some i) } :
      SendCalls ι).Inv strHash args := by
  have hset : (s.setStage i .writing).Inv strHash args := h.setStage nofun (Or.inr (Or.inl rfl))
  obtain ⟨hwaiting, hstarting⟩ := h.early i (Or.inr hstage)
  -- The entry is new, and the handle of the call still waits.
  have hgone : ∀ k, k ≠ i → s.Gone strHash args k →
      Function.update s.responseHandles (tagOf strHash args i) (some i) (tagOf strHash args k) ≠
        some k := by
    intro k hki hk
    by_cases htag : tagOf strHash args k = tagOf strHash args i
    · rw [htag, Function.update_self]
      exact fun hik => hki (Option.some.inj hik).symm
    · rw [Function.update_of_ne htag]
      exact hk
  refine ⟨fun tag k hk => ?_, hset.early, fun k hk => ?_, fun k response hk => ?_⟩
  · by_cases htag : tag = tagOf strHash args i
    · subst htag
      simp only [Function.update_self, Option.some.injEq] at hk
      subst hk
      exact ⟨rfl, Or.inl (Function.update_self ..)⟩
    · simp only [Function.update_of_ne htag] at hk
      exact hset.entry tag k hk
  · by_cases hki : k = i
    · subst hki
      rcases hk with hk | hk
      · exact absurd hwaiting hk
      · exact absurd (hstarting.symm.trans hk) (by decide)
    · exact hgone k hki (h.settled k hk)
  · obtain ⟨hearly, hk'⟩ := h.delivering k response hk
    have hki : k ≠ i := fun hki => hearly (hki ▸ Or.inr hstage)
    exact ⟨(hset.delivering k response hk).1, hgone k hki hk'⟩

omit [DecidableEq ι] in
theorem Inv.receive (h : s.Inv strHash args) {tag : BitVec 32} {i : ι}
    (hentry : s.responseHandles tag = some i) (response : List UInt8) :
    ({ s with
      responseHandles := Function.update s.responseHandles tag none
      delivering := some (i, response) } : SendCalls ι).Inv strHash args := by
  have hgone : ∀ k, s.Gone strHash args k →
      Function.update s.responseHandles tag none (tagOf strHash args k) ≠ some k := by
    intro k hk
    by_cases htag : tagOf strHash args k = tag
    · rw [htag, Function.update_self]
      exact nofun
    · rw [Function.update_of_ne htag]
      exact hk
  obtain ⟨rfl, hstage⟩ := h.entry tag i hentry
  refine ⟨fun tag k hk => ?_, h.early, fun k hk => hgone k (h.settled k hk),
    fun k response' hk => ?_⟩
  · by_cases htag : tag = tagOf strHash args i
    · subst htag
      simp [Function.update_self] at hk
    · simp only [Function.update_of_ne htag] at hk
      exact h.entry tag k hk
  · obtain ⟨rfl, -⟩ := Prod.mk.inj (Option.some.inj hk)
    refine ⟨not_early hstage, ?_⟩
    show Function.update s.responseHandles _ none _ ≠ _
    rw [Function.update_self]
    exact nofun

theorem Inv.deliver (h : s.Inv strHash args) {i : ι} {response : List UInt8}
    (hdelivering : s.delivering = some (i, response)) {w : Waiters ι}
    (hs : s.waiters.step (.write i response) = some w) :
    ({ s with waiters := w, delivering := none } : SendCalls ι).Inv strHash args := by
  obtain ⟨hearly, hgone⟩ := h.delivering i response hdelivering
  simp only [Waiters.step] at hs
  split at hs
  · cases hs
  · obtain ⟨r, -, rfl⟩ := Option.map_eq_some_iff.mp hs
    have hset := h.setWaiter (c := s.waiters.condition)
      (w := { s.waiters.waiters i with
        handle := r.2, locked := (s.waiters.waiters i).handle.state ≠ .S_TIME_OUT })
      (fun hk => absurd hk hearly) fun _ => hgone
    exact ⟨hset.entry, hset.early, hset.settled, fun _ _ hd => (by cases hd)⟩

theorem Inv.timeOut (h : s.Inv strHash args) {i : ι} (hruns : s.TimerRuns strHash args i)
    (hok : (s.waiters.waiters i).handle.state = .S_WAITING → s.Gone strHash args i)
    {w : Waiters ι} (hs : s.waiters.step (.timeOut i) = some w) :
    ({ s with waiters := w } : SendCalls ι).Inv strHash args := by
  simp only [Waiters.step] at hs
  split at hs
  · cases hs
  · cases hs
    refine h.setWaiter (c := s.waiters.condition) (fun hearly => ?_) fun hsettled => ?_
    · unfold TimerRuns at hruns
      unfold Early at hearly
      rcases hearly with hstage | hstage <;> rw [hstage] at hruns <;> simp at hruns
    · by_cases hstate : (s.waiters.waiters i).handle.state = .S_WAITING
      · exact hok hstate
      · exact h.settled i (Or.inl hstate)

theorem Inv.notify (h : s.Inv strHash args) {i : ι} {w : Waiters ι}
    (hs : s.waiters.step (.notify i) = some w) :
    ({ s with waiters := w } : SendCalls ι).Inv strHash args := by
  simp only [Waiters.step] at hs
  split at hs
  · cases hs
    exact h.setWaiter (fun hearly => h.early i hearly) fun hsettled => h.settled i hsettled
  · cases hs

theorem Inv.step (h : s.Inv strHash args) {a : Action ι} (hok : s.Answered strHash args a)
    (hs : s.step strHash args a = some s') : s'.Inv strHash args := by
  cases a with
  | test i =>
    simp only [SendCalls.step] at hs
    split at hs
    · rename_i hidle
      cases hs
      have hgone : s.Gone strHash args i :=
        h.noEntry_of_stage (by rw [hidle]; decide) (by rw [hidle]; decide) _
      exact h.setStage (fun _ => Or.inl hidle) (Or.inl hgone)
    · cases hs
  | register i =>
    simp only [SendCalls.step] at hs
    split at hs
    · rename_i hstage
      cases hs
      exact h.register hstage
    · cases hs
  | writePackage i =>
    simp only [SendCalls.step] at hs
    split at hs
    · obtain ⟨r, hr, rfl⟩ := Option.map_eq_some_iff.mp hs
      have hset : (s.setStage i (if r.1 then .reading else .exited .S_LOCAL_CACHE_FULL)).Inv
          strHash args := by
        rcases hok with ⟨r', hr', htaken⟩ | hgone
        · obtain rfl : r = r' := Option.some.inj (hr.symm.trans hr')
          rw [if_pos htaken]
          exact h.setStage nofun (Or.inr (Or.inr rfl))
        · refine h.setStage (fun hstage => ?_) (Or.inl hgone)
          split at hstage <;> rcases hstage with hstage | hstage <;> cases hstage
      exact ⟨hset.entry, hset.early, hset.settled, hset.delivering⟩
    · cases hs
  | wait i =>
    simp only [SendCalls.step] at hs
    split at hs
    · rename_i hstage
      obtain ⟨w, hw, rfl⟩ := Option.map_eq_some_iff.mp hs
      exact h.reader hstage hok (Or.inl hw)
    · cases hs
  | wakeUp i =>
    simp only [SendCalls.step] at hs
    split at hs
    · rename_i hstage
      obtain ⟨w, hw, rfl⟩ := Option.map_eq_some_iff.mp hs
      exact h.reader hstage hok (Or.inr hw)
    · cases hs
  | finish i =>
    simp only [SendCalls.step] at hs
    split at hs
    · rename_i hguard
      obtain ⟨r, -, rfl⟩ := Option.map_eq_some_iff.mp hs
      exact h.setStage nofun (Or.inl (h.settled i (Or.inr hguard.2.1)))
    · cases hs
  | receive tag response =>
    simp only [SendCalls.step] at hs
    split at hs
    · split at hs
      · rename_i i hentry
        cases hs
        exact h.receive hentry response
      · cases hs
        exact h
    · cases hs
  | deliver =>
    simp only [SendCalls.step] at hs
    split at hs
    · rename_i i response hdelivering
      obtain ⟨w, hw, rfl⟩ := Option.map_eq_some_iff.mp hs
      exact h.deliver hdelivering hw
    · cases hs
  | timeOut i =>
    simp only [SendCalls.step] at hs
    split at hs
    · rename_i hruns
      obtain ⟨w, hw, rfl⟩ := Option.map_eq_some_iff.mp hs
      exact h.timeOut hruns hok hw
    · cases hs
  | notify i =>
    obtain ⟨w, hw, rfl⟩ := Option.map_eq_some_iff.mp hs
    exact h.notify hw
  | useCache u =>
    obtain ⟨writeCache, -, rfl⟩ := Option.map_eq_some_iff.mp hs
    exact ⟨h.entry, h.early, h.settled, h.delivering⟩
  | closeConnection =>
    cases hs
    exact ⟨h.entry, h.early, h.settled, h.delivering⟩

/-! ## The result -/

theorem Inv.nothingLeft (h : s.Inv strHash args) : s.NothingLeft strHash args := by
  have hnoEntry : ∀ i state, s.stage i = .exited state → ∀ tag, s.responseHandles tag ≠ some i := by
    intro i state hexited tag
    exact h.noEntry_of_stage (fun hw => nomatch hexited.symm.trans hw)
      (fun hr => nomatch hexited.symm.trans hr) tag
  refine ⟨hnoEntry, fun i state hexited hidle => ?_, ?_⟩
  · simp only [SendCalls.step]
    rw [if_neg]
    rintro (hreading | ⟨-, hentry | hdelivering⟩)
    · rw [hexited] at hreading
      cases hreading
    · exact hentry (hnoEntry i state hexited _)
    · obtain ⟨p, hp, rfl⟩ := Option.map_eq_some_iff.mp hdelivering
      exact hidle p.2 hp
  · -- An entry is under the tag of its call, which is in progress.
    have hsub : { tag | s.responseHandles tag ≠ none } ⊆
        tagOf strHash args '' { i | s.InProgress i } := by
      intro tag htag
      obtain ⟨i, hi⟩ := Option.ne_none_iff_exists'.mp htag
      obtain ⟨rfl, hstage⟩ := h.entry tag i hi
      refine ⟨i, ?_, rfl⟩
      rcases hstage with hstage | hstage <;>
        exact ⟨by rw [hstage]; exact nofun, fun state => by rw [hstage]; exact nofun⟩
    exact (Set.encard_le_encard hsub).trans (Set.encard_image_le _ _)

/-- For all calls, every connection and write cache, and every run that meets
the condition: no call leaves a handle behind. -/
theorem nothingLeft_of_answered (fd : Int) (writeCache : BufferCache)
    (h : ReachableIf (step strHash args) (Answered strHash args)
      (start strHash args fd writeCache) s) : s.NothingLeft strHash args :=
  (h.invariant (inv_start fd writeCache) fun _ _ _ hi hok hs => hi.step hok hs).nothingLeft

end Step

/-- Calls of `add` with a payload of three bytes. -/
def addArgs (i : Fin 2) : SendArgs := ⟨⟨"add", i.val + 7⟩, List.replicate 2048 0, 3⟩

/-- A call with its response, and one without a connection. -/
theorem nothingLeft_of_answered_response :
    ∃ s : SendCalls (Fin 2), (s.stage 0 = .exited .S_DONE ∧
      s.stage 1 = .exited .S_NO_CONNECTION) ∧ s.NothingLeft (fun _ => 0) addArgs := by
  obtain ⟨s, hs, hP⟩ : ∃ s, ReachableIf (step (fun _ => 0) addArgs)
      (Answered (fun _ => 0) addArgs) (start (fun _ => 0) addArgs 5 (new 64)) s ∧
      (s.stage 0 = .exited .S_DONE ∧ s.stage 1 = .exited .S_NO_CONNECTION) :=
    exists_reachable_of_run
      [.test 0, .register 0, .writePackage 0, .wait 0, .receive 7 [1], .deliver, .notify 0,
        .wakeUp 0, .finish 0, .closeConnection, .test 1]
      (by decide +kernel)
  exact ⟨s, hP, nothingLeft_of_answered 5 (new 64) hs⟩

/-- A call without a response: it throws `S_TIME_OUT`, and its handle stays. -/
theorem timeout_leaves_handle :
    ∃ s, Reachable (step (fun _ => 0) addArgs) (start (fun _ => 0) addArgs 5 (new 64)) s ∧
      ¬ s.NothingLeft (fun _ => 0) addArgs := by
  obtain ⟨s, hs, hexited, hentry⟩ : ∃ s,
      Reachable (step (fun _ => 0) addArgs) (start (fun _ => 0) addArgs 5 (new 64)) s ∧
      (s.stage 0 = .exited .S_TIME_OUT ∧ s.responseHandles 7 = some 0) :=
    exists_reachable_of_run
      [.test 0, .register 0, .writePackage 0, .wait 0, .timeOut 0, .notify 0, .wakeUp 0, .finish 0]
      (by decide +kernel)
  exact ⟨s, hs, fun h => h.noEntry 0 _ hexited 7 hentry⟩

end SendCalls

end CppRpc
