import CppRpc.Client.ResponseHandle
import CppRpc.Lib.Runs

/-!
# What `ResponseHandle::read` returns

A handle with the three calls that meet on it: `write` with the response, once,
`time_out` from the repeating timer, any number of times, and one `read`, which
copies the response out after its wait has returned.  The wait needs a
notification, so `read` comes after one of the others at least.

`RightOutcome` is the property of the answer of `read`.  `Exchange.Inv` says
that the first of `write` and `time_out` settles the handle for good, and
`rightOutcome_iff` is the exact condition.  `read` copies only what is shorter
than `max_len` and returns the length in any case, so a response of exactly
`max_len` bytes, or of more, is announced and not delivered; an empty response
looks like a failure.
-/

namespace CppRpc

open CData Runs

/-- What ends the wait. -/
inductive Ending
  | write
  | timeOut
  deriving DecidableEq

/-- A handle.  `first` is the ending that came first, and `result` what `read`
answered; an answer `none` is a copy that left `buf`. -/
structure Exchange where
  handle : ResponseHandle
  written : Bool
  first : Option Ending
  result : Option (Option (Int × List UInt8))

namespace Exchange

inductive Action
  | write
  | timeOut
  | read

def start (tag : BitVec 32) : Exchange := ⟨.new tag, false, none, none⟩

section System

variable (resp : List UInt8) (maxLen : Nat) (buf : List UInt8)

/-- One action, where the response is `resp` and the call is
`read(buf, maxLen, ..)`. -/
def step (s : Exchange) : Action → Option Exchange
  | .write =>
      if s.written then none
      else (s.handle.write resp resp.length).map fun r =>
        { s with handle := r.2, written := true, first := s.first.or (some .write) }
  | .timeOut =>
      some { s with handle := s.handle.timeOut, first := s.first.or (some .timeOut) }
  | .read =>
      if s.first.isSome ∧ s.result.isNone then
        some { s with result := some (s.handle.readOut buf maxLen) }
      else none

/-- The property: `read` answers the response, and otherwise zero, because the
timeout came first or because the response is too long for the handle. -/
def RightOutcome (s : Exchange) (r : Option (Int × List UInt8)) : Prop :=
  ∃ answer ∈ r,
    if s.first = some .timeOut then answer.1 = 0
    else
      (0 < answer.1 ∧ answer.1 ≤ maxLen ∧ answer.1 = resp.length ∧
        answer.2.take resp.length = resp) ∨
      (answer.1 = 0 ∧ 2048 < resp.length)

instance (s : Exchange) (r : Option (Int × List UInt8)) :
    Decidable (RightOutcome resp maxLen s r) :=
  inferInstanceAs (Decidable (∃ answer ∈ _, _))

/-- The condition on the response.  It is too long for the handle; or it is
shorter than `maxLen` and `buf` has room; or it is as long as `maxLen` and
already in `buf`. -/
def Deliverable : Prop :=
  2048 < resp.length ∨
    0 < resp.length ∧
      (resp.length < maxLen ∧ resp.length ≤ buf.length ∨
        resp.length = maxLen ∧ buf.take resp.length = resp)

instance : Decidable (Deliverable resp maxLen buf) := inferInstanceAs (Decidable (_ ∨ _))

/-- The handle that each ending leaves. -/
def Settled (tag : BitVec 32) (s : Exchange) : Option Ending → Prop
  | none => s.handle = .new tag ∧ s.written = false
  | some .timeOut => s.handle = { ResponseHandle.new tag with state := .S_TIME_OUT }
  | some .write =>
      (ResponseHandle.new tag).write resp resp.length = some ((resp.length : Int), s.handle) ∧
        s.handle.state = .S_DONE ∧ s.written = true

/-- The invariant. -/
structure Inv (tag : BitVec 32) (s : Exchange) : Prop where
  settled : s.Settled resp tag s.first
  result_eq : ∀ r, s.result = some r → s.first.isSome ∧ r = s.handle.readOut buf maxLen

variable {resp maxLen buf} {tag : BitVec 32} {s s' : Exchange}

theorem inv_start (tag : BitVec 32) : Inv resp maxLen buf tag (start tag) :=
  ⟨⟨rfl, rfl⟩, nofun⟩

theorem Inv.write (h : Inv resp maxLen buf tag s) (hs : step resp maxLen buf s .write = some s') :
    Inv resp maxLen buf tag s' := by
  obtain ⟨hsettled, hresult⟩ := h
  unfold step at hs
  dsimp only at hs
  split at hs
  · cases hs
  · rename_i hwritten
    obtain ⟨r, hr, rfl⟩ := Option.map_eq_some_iff.mp hs
    cases hfirst : s.first with
    | none =>
      rw [hfirst] at hsettled hresult
      rw [hsettled.1] at hr
      obtain ⟨n, data, hwrite, -⟩ := ResponseHandle.write_new tag resp
      obtain rfl : r = _ := Option.some.inj (hr.symm.trans hwrite)
      refine ⟨⟨hwrite, rfl, rfl⟩, fun q hq => ?_⟩
      exact absurd (hresult q hq).1 Bool.false_ne_true
    | some first =>
      rw [hfirst] at hsettled hresult
      cases first with
      | timeOut =>
        have hsame : r = (0, s.handle) := by
          unfold ResponseHandle.write at hr
          rw [if_pos (by rw [hsettled])] at hr
          exact (Option.some.inj hr).symm
        rw [hsame]
        exact ⟨hsettled, hresult⟩
      | write => exact absurd hsettled.2.2 hwritten

theorem Inv.timeOut (h : Inv resp maxLen buf tag s) :
    Inv resp maxLen buf tag
      { s with handle := s.handle.timeOut, first := s.first.or (some .timeOut) } := by
  obtain ⟨hsettled, hresult⟩ := h
  cases hfirst : s.first with
  | none =>
    rw [hfirst] at hsettled hresult
    refine ⟨?_, fun r hr => absurd (hresult r hr).1 Bool.false_ne_true⟩
    show s.handle.timeOut = _
    rw [hsettled.1]
    rfl
  | some first =>
    rw [hfirst] at hsettled hresult
    have hsame : s.handle.timeOut = s.handle := by
      rcases s.handle.timeOut_cases with ⟨hwaiting, -⟩ | ⟨-, hsame⟩
      · cases first with
        | timeOut =>
          rw [hsettled] at hwaiting
          cases hwaiting
        | write =>
          rw [hsettled.2.1] at hwaiting
          cases hwaiting
      · exact hsame
    rw [hsame]
    refine ⟨?_, hresult⟩
    cases first <;> exact hsettled

theorem Inv.step {a : Action} (h : Inv resp maxLen buf tag s)
    (hs : step resp maxLen buf s a = some s') : Inv resp maxLen buf tag s' := by
  cases a with
  | write => exact h.write hs
  | timeOut =>
    cases hs
    exact h.timeOut
  | read =>
    unfold Exchange.step at hs
    dsimp only at hs
    split at hs
    · rename_i hguard
      cases hs
      refine ⟨?_, fun r hr => ?_⟩
      · have hsettled := h.settled
        revert hsettled
        cases s.first with
        | none => exact id
        | some first => cases first <;> exact id
      · cases hr
        exact ⟨hguard.1, rfl⟩
    · cases hs

/-- What is copied out of a handle that has the response. -/
theorem delivers_iff {h : ResponseHandle}
    (hw : (ResponseHandle.new tag).write resp resp.length = some ((resp.length : Int), h)) :
    (∃ answer ∈ h.readOut buf maxLen,
      (0 < answer.1 ∧ answer.1 ≤ maxLen ∧ answer.1 = resp.length ∧
        answer.2.take resp.length = resp) ∨
      (answer.1 = 0 ∧ 2048 < resp.length)) ↔
      Deliverable resp maxLen buf := by
  obtain ⟨n, data, hwrite, hdata, hfront, hn⟩ := ResponseHandle.write_new tag resp
  obtain rfl : h = ⟨⟨2048, n, data⟩, .S_DONE, tag⟩ :=
    (Prod.mk.inj (Option.some.inj (hw.symm.trans hwrite))).2
  rw [ResponseHandle.readOut_done rfl rfl (by omega)]
  unfold Deliverable
  dsimp only
  rcases hn with ⟨hstored, rfl⟩ | ⟨hlong, rfl⟩
  · rw [List.take_length] at hfront
    by_cases hcopied : (resp.length : Int) < maxLen
    · rw [if_pos hcopied]
      by_cases hroom : resp.length ≤ buf.length
      · have hcopy := memcpy_eq_some buf data 0 0 resp.length (by omega) (by omega)
        rw [show (0 : Int) = ((0 : Nat) : Int) from rfl, hcopy, Option.map_some, List.take_zero,
          List.nil_append, List.drop_zero, hfront]
        simp only [Option.mem_some_iff, exists_eq_left', List.take_left' rfl, and_true]
        omega
      · rw [memcpy, if_neg (by omega), Option.map_none]
        refine iff_of_false (fun ⟨answer, hr, _⟩ => by cases hr) ?_
        rintro (hlong | ⟨-, ⟨-, hbuf⟩ | ⟨hmax, -⟩⟩) <;> omega
    · rw [if_neg hcopied]
      simp only [Option.mem_some_iff, exists_eq_left', true_and]
      constructor
      · rintro (⟨hpos, hle, hbuf⟩ | ⟨-, hlong⟩)
        · exact Or.inr ⟨by omega, Or.inr ⟨by omega, hbuf⟩⟩
        · omega
      · rintro (hlong | ⟨hpos, ⟨hlt, -⟩ | ⟨hmax, hbuf⟩⟩)
        · omega
        · omega
        · exact Or.inl ⟨by omega, by omega, hbuf⟩
  · -- Nothing was stored, and nothing is copied.
    have hzero : ∃ buf', (if ((0 : Nat) : Int) < maxLen then
        (memcpy buf 0 data 0 ((0 : Nat) : Int)).map fun buf => (((0 : Nat) : Int), buf)
        else some (((0 : Nat) : Int), buf)) = some (0, buf') := by
      split
      · rw [show (0 : Int) = ((0 : Nat) : Int) from rfl,
          memcpy_eq_some buf data 0 0 0 (by omega) (by omega)]
        exact ⟨_, rfl⟩
      · exact ⟨buf, rfl⟩
    obtain ⟨buf', hzero⟩ := hzero
    rw [hzero]
    exact iff_of_true ⟨_, rfl, Or.inr ⟨rfl, hlong⟩⟩ (Or.inl hlong)

/-- For every response, every `max_len` and buffer, and every order of the
calls: the answer of `read` is right exactly when the timeout came first or the
response meets the condition. -/
theorem rightOutcome_iff (tag : BitVec 32) (resp : List UInt8) (maxLen : Nat) (buf : List UInt8)
    (h : Reachable (step resp maxLen buf) (start tag) s) {r : Option (Int × List UInt8)}
    (hr : s.result = some r) :
    RightOutcome resp maxLen s r ↔ s.first = some .timeOut ∨ Deliverable resp maxLen buf := by
  have hinv : Inv resp maxLen buf tag s :=
    h.invariant (inv_start tag) fun _ _ _ hi _ hs => hi.step hs
  obtain ⟨hsettled, hresult⟩ := hinv
  obtain ⟨hfirst, rfl⟩ := hresult r hr
  unfold RightOutcome
  revert hsettled hfirst
  cases s.first with
  | none => exact fun _ hfirst => absurd hfirst Bool.false_ne_true
  | some first =>
    intro hsettled _
    cases first with
    | timeOut =>
      refine iff_of_true ⟨(0, buf), ?_, ?_⟩ (Or.inl rfl)
      · rw [hsettled]
        rfl
      · rw [if_pos rfl]
    | write =>
      simp only [Option.some.injEq, reduceCtorEq, if_false, false_or]
      exact delivers_iff hsettled.1

end System

/-- A timeout behind the response changes nothing. -/
theorem rightOutcome_iff_late_timeout :
    ∃ (s : Exchange) (r : Option (Int × List UInt8)), s.result = some r ∧
      s.first = some .write ∧ RightOutcome [1, 2, 3] 2048 s r := by
  obtain ⟨s, hs, hP⟩ : ∃ s,
      Reachable (step [1, 2, 3] 2048 (List.replicate 2048 0)) (start 7) s ∧
        (s.result.isSome ∧ s.first = some .write) :=
    exists_reachable_of_run [.write, .timeOut, .read] (by decide +kernel)
  obtain ⟨r, hr⟩ := Option.isSome_iff_exists.mp hP.1
  exact ⟨s, r, hr, hP.2, (rightOutcome_iff 7 _ _ _ hs hr).mpr (Or.inr (by decide +kernel))⟩

/-- A response as long as `max_len`. -/
theorem response_of_max_len_not_copied :
    ∃ s, Reachable (step (List.replicate 2048 1) 2048 (List.replicate 2048 0)) (start 7) s ∧
      ∃ r ∈ s.result, ¬ RightOutcome (List.replicate 2048 1) 2048 s r :=
  exists_reachable_of_run [.write, .read] (by decide +kernel)

end Exchange

end CppRpc
