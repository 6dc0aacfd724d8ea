import Mathlib.Logic.Function.Basic
import CppRpc.Lib.Runs
import CppRpc.Client.ResponseHandle

/-!
# Matching responses with requests

The calls of `ClientService::send_request` and the poll thread, on the map
`m_response_handles`.  A call registers its handle under the tag of its request
and waits.  The poll thread computes the tag of a response, takes the handle
under this tag out of the map, and writes the response into it; the last two
are separate steps.  Responses come in any order, and any number of times.

The tag is `ClientService::hash`, which keeps 32 bits of the query id and of
the hash of the method.  `OwnResponses` is the property, and `ownResponses_iff`
says that it holds in every run exactly when the tags of the calls are
distinct.  Distinct requests, and a hash that tells their methods apart, are
not enough for that: `response_of_other_method`.

`resends` says whether `send_request` has the loop behind the registration,
which it never leaves.  Without it a call can time out and return.
-/

namespace CppRpc

open Runs

/-- What identifies a request, and the response to it. -/
structure Request where
  method : String
  queryId : BitVec 32
  deriving DecidableEq

/-- `ClientService::hash`.  The query id is converted to the `size_t` of the
hash, and the result to an `int`. -/
def ClientService.hash (strHash : String → BitVec 64) (r : Request) : BitVec 32 :=
  (r.queryId.signExtend 64 ^^^ strHash r.method).setWidth 32

/-- A response frame, and the request that `response_tag` parses from it. -/
structure Response where
  request : Request
  buf : List UInt8

/-- `response_tag`. -/
def responseTag (strHash : String → BitVec 64) (r : Response) : BitVec 32 :=
  ClientService.hash strHash r.request

inductive Phase
  | starting
  | waiting
  | returned
  deriving DecidableEq

/-- One call of `send_request`, with its handle. -/
structure Call where
  phase : Phase
  handle : ResponseHandle

/-- The client.  `responseHandles` is `m_response_handles`, with the call in
place of its handle.  `delivering` is the response that the poll thread is
about to write.  `stored` and `evicted` are histories: the responses written
into the handles, and the calls that another one pushed out of the map while
they were waiting. -/
structure ClientService (ι : Type) where
  responseHandles : BitVec 32 → Option ι
  calls : ι → Call
  delivering : Option (ι × Response)
  stored : List (ι × Response)
  evicted : List ι

namespace ClientService

variable {ι : Type}

inductive Action (ι : Type)
  | register (i : ι)
  /-- A response to call `k` arrives. -/
  | receive (k : ι) (buf : List UInt8)
  | write
  | timeOut (i : ι)
  | finish (i : ι)

/-- The call is registered, and its handle still waits. -/
def Waiting (s : ClientService ι) (i : ι) : Prop :=
  (s.calls i).phase = .waiting ∧ (s.calls i).handle.state = .S_WAITING

instance (s : ClientService ι) : DecidablePred s.Waiting :=
  fun _ => inferInstanceAs (Decidable (_ ∧ _))

def new : ClientService ι :=
  ⟨fun _ => none, fun _ => ⟨.starting, .new 0⟩, none, [], []⟩

def setCall [DecidableEq ι] (s : ClientService ι) (i : ι) (c : Call) : ClientService ι :=
  { s with calls := Function.update s.calls i c }

section Step

variable (strHash : String → BitVec 64) (request : ι → Request) (resends : Bool)

/-- One step. -/
def step [DecidableEq ι] (s : ClientService ι) : Action ι → Option (ClientService ι)
  | .register i =>
      if (s.calls i).phase = .starting then
        let tag := hash strHash (request i)
        some { s.setCall i ⟨.waiting, .new tag⟩ with
          responseHandles := Function.update s.responseHandles tag (some i)
          evicted := match s.responseHandles tag with
            | some k => if s.Waiting k then s.evicted ++ [k] else s.evicted
            | none => s.evicted }
      else none
  | .receive k buf =>
      if s.delivering = none then
        let response : Response := ⟨request k, buf⟩
        let tag := responseTag strHash response
        match s.responseHandles tag with
        | some i => some { s with
            responseHandles := Function.update s.responseHandles tag none
            delivering := some (i, response) }
        | none => some s
      else none
  | .write =>
      match s.delivering with
      | some (i, response) =>
          ((s.calls i).handle.write response.buf response.buf.length).map fun r =>
            { s.setCall i { s.calls i with handle := r.2 } with
              delivering := none
              stored :=
                if (s.calls i).handle.state = .S_TIME_OUT then s.stored
                else s.stored ++ [(i, response)] }
      | none => none
  | .timeOut i =>
      if resends = false ∧ (s.calls i).phase = .waiting then
        some (s.setCall i { s.calls i with handle := (s.calls i).handle.timeOut })
      else none
  | .finish i =>
      if resends = false ∧ (s.calls i).phase = .waiting ∧ ¬ s.Waiting i then
        some (s.setCall i { s.calls i with phase := .returned })
      else none

/-- The property. -/
def OwnResponses (s : ClientService ι) : Prop :=
  (∀ p ∈ s.stored, p.2.request = request p.1) ∧ s.evicted = []

instance : DecidablePred (OwnResponses request) := fun _ => inferInstanceAs (Decidable (_ ∧ _))

/-- The invariant. -/
structure Inv (s : ClientService ι) : Prop where
  own : s.OwnResponses request
  registered : ∀ tag i, s.responseHandles tag = some i →
    tag = hash strHash (request i) ∧ (s.calls i).phase ≠ .starting
  delivering : ∀ i response, s.delivering = some (i, response) → response.request = request i

variable {strHash request resends} {s : ClientService ι}

theorem inv_new : (new : ClientService ι).Inv strHash request :=
  ⟨⟨fun _ hp => absurd hp List.not_mem_nil, rfl⟩, fun _ _ hk => absurd hk (by simp [new]),
    fun _ _ hd => absurd hd (by simp [new])⟩

variable [DecidableEq ι]

/-- A step that changes one call, and does not take it back to its start. -/
theorem Inv.setCall (h : s.Inv strHash request) {i : ι} {c : Call}
    (hc : (s.calls i).phase ≠ .starting → c.phase ≠ .starting) :
    (s.setCall i c).Inv strHash request := by
  refine ⟨h.own, fun tag k hk => ?_, h.delivering⟩
  obtain ⟨htag, hphase⟩ := h.registered tag k hk
  refine ⟨htag, ?_⟩
  show (Function.update s.calls i c k).phase ≠ .starting
  by_cases hki : k = i
  · subst hki
    rw [Function.update_self]
    exact hc hphase
  · rw [Function.update_of_ne hki]
    exact hphase

/-- With distinct tags nothing is registered under the tag of a call that
starts. -/
theorem Inv.register (h : s.Inv strHash request)
    (hinj : Function.Injective fun i => hash strHash (request i)) {i : ι}
    (hstarting : (s.calls i).phase = .starting) {s' : ClientService ι}
    (hs : s.step strHash request resends (.register i) = some s') : s'.Inv strHash request := by
  have hfree : s.responseHandles (hash strHash (request i)) = none := by
    cases hk : s.responseHandles (hash strHash (request i)) with
    | none => rfl
    | some k =>
      obtain ⟨htag, hphase⟩ := h.registered _ k hk
      obtain rfl : i = k := hinj htag
      exact absurd hstarting hphase
  simp only [step, hstarting, if_true, hfree, Option.some.injEq] at hs
  subst hs
  have hset := h.setCall (c := ⟨.waiting, .new (hash strHash (request i))⟩) (i := i)
    (fun _ => by simp)
  refine ⟨h.own, fun tag k hk => ?_, h.delivering⟩
  by_cases htag : tag = hash strHash (request i)
  · subst htag
    simp only [Function.update_self, Option.some.injEq] at hk
    subst hk
    refine ⟨rfl, ?_⟩
    show (Function.update s.calls i _ i).phase ≠ .starting
    rw [Function.update_self]
    simp
  · simp only [Function.update_of_ne htag] at hk
    exact hset.registered tag k hk

/-- With distinct tags a response goes to the call that it answers. -/
theorem Inv.receive (h : s.Inv strHash request)
    (hinj : Function.Injective fun i => hash strHash (request i)) {k : ι} {buf : List UInt8}
    {s' : ClientService ι} (hs : s.step strHash request resends (.receive k buf) = some s') :
    s'.Inv strHash request := by
  simp only [step] at hs
  split at hs
  · split at hs
    · rename_i i hi
      cases hs
      obtain ⟨htag, -⟩ := h.registered _ i hi
      obtain rfl : k = i := hinj htag
      refine ⟨h.own, fun tag j hj => ?_, fun j response hj => ?_⟩
      · by_cases ht : tag = responseTag strHash ⟨request k, buf⟩
        · subst ht
          simp [Function.update_self] at hj
        · simp only [Function.update_of_ne ht] at hj
          exact h.registered tag j hj
      · obtain ⟨rfl, rfl⟩ := Prod.mk.inj (Option.some.inj hj)
        rfl
    · cases hs
      exact h
  · cases hs

theorem Inv.write (h : s.Inv strHash request) {s' : ClientService ι}
    (hs : s.step strHash request resends .write = some s') : s'.Inv strHash request := by
  simp only [step] at hs
  split at hs
  · rename_i i response hdelivering
    obtain ⟨r, -, rfl⟩ := Option.map_eq_some_iff.mp hs
    have hset := h.setCall (i := i) (c := { s.calls i with handle := r.2 }) id
    refine ⟨⟨fun p hp => ?_, h.own.2⟩, hset.registered, fun _ _ hd => by cases hd⟩
    dsimp only at hp
    split at hp
    · exact h.own.1 p hp
    · rcases List.mem_append.mp hp with hp | hp
      · exact h.own.1 p hp
      · obtain rfl := List.mem_singleton.mp hp
        exact h.delivering i response hdelivering
  · cases hs

theorem Inv.step (h : s.Inv strHash request)
    (hinj : Function.Injective fun i => hash strHash (request i)) {a : Action ι}
    {s' : ClientService ι} (hs : s.step strHash request resends a = some s') :
    s'.Inv strHash request := by
  cases a with
  | register i =>
    by_cases hstarting : (s.calls i).phase = .starting
    · exact h.register hinj hstarting hs
    · rw [ClientService.step, if_neg hstarting] at hs
      cases hs
  | receive k buf => exact h.receive hinj hs
  | write => exact h.write hs
  | timeOut i =>
    simp only [ClientService.step] at hs
    split at hs
    · cases hs
      exact h.setCall id
    · cases hs
  | finish i =>
    simp only [ClientService.step] at hs
    split at hs
    · cases hs
      exact h.setCall fun _ => by simp
    · cases hs

/-- Two calls with one tag: the second one pushes the first out of the map. -/
theorem exists_evicted {i j : ι} (hne : i ≠ j)
    (htag : hash strHash (request i) = hash strHash (request j)) :
    ∃ s, Reachable (ClientService.step strHash request resends) new s ∧ s.evicted = [i] := by
  apply exists_reachable_of_run [.register i, .register j]
  have hji : j ≠ i := fun h => hne h.symm
  simp [runIf, ClientService.step, new, setCall, Waiting, htag, hji]

/-- The property holds in every run exactly when the calls have distinct tags. -/
theorem ownResponses_iff :
    (∀ s, Reachable (ClientService.step strHash request resends) new s →
      s.OwnResponses request) ↔ Function.Injective fun i => hash strHash (request i) := by
  constructor
  · intro hall i j htag
    by_contra hne
    obtain ⟨s, hs, hevicted⟩ := exists_evicted hne htag
    have := (hall s hs).2
    rw [hevicted] at this
    cases this
  · intro hinj s hs
    exact (hs.invariant inv_new fun _ _ _ h _ hstep => h.step hinj hstep).own

end Step

/-- Two methods with different hashes.  The tags of their calls agree in the 32
bits that are kept, and the response to the first goes to the second. -/
theorem response_of_other_method :
    let strHash := fun m => if m = "add" then 0x100000001#64 else 0x200000002#64
    let request := fun i : Fin 2 => if i = 0 then Request.mk "add" 1 else Request.mk "sub" 2
    ∃ s, Reachable (step strHash request true) new s ∧ ¬ s.OwnResponses request :=
  exists_reachable_of_run [.register 0, .register 1, .receive 0 [7], .write] (by decide +kernel)

end ClientService

end CppRpc
