import Mathlib.Logic.Function.Basic
import CppRpc.Lib.Runs

/-!
# A service of remote calls

What a system for remote calls is for, without the ways that requests and
responses take.  The state is what is known of each call: how often it was
requested, how often it was executed, and what came of it.  An event changes one
of these for one call, and a `Contract` says which events may come when.

A call is executed only for a request, returns only after an execution and with
one of its answers, and fails only before it is requested or only after,
depending on the error.  An execution may come after the call has failed.
-/

namespace CppRpc

/-- What came of a call. -/
inductive Outcome (ε ρ : Type)
  | pending
  | failed (e : ε)
  | returned (v : ρ)

/-- Calls `ι`, with errors `ε` and results `ρ`. -/
structure CallService (ι ε ρ : Type) where
  requested : ι → Nat
  executed : ι → Nat
  outcome : ι → Outcome ε ρ

namespace CallService

variable {ι ε ρ : Type}

/-- What the events of a service depend on. -/
structure Contract (ι ε ρ : Type) where
  /-- A call is requested once at most. -/
  once : Prop
  /-- The results that the execution of a call may have. -/
  answers : ι → ρ → Prop
  /-- The errors of a call that was not requested. -/
  unsent : ε → Prop

inductive Event (ι ε ρ : Type)
  | request (i : ι)
  | execute (i : ι)
  | fail (i : ι) (e : ε)
  | return (i : ι) (v : ρ)

def new : CallService ι ε ρ := ⟨fun _ => 0, fun _ => 0, fun _ => .pending⟩

/-- One step. -/
def step [DecidableEq ι] (s : CallService ι ε ρ) : Event ι ε ρ → Option (CallService ι ε ρ)
  | .request i =>
      some { s with requested := Function.update s.requested i (s.requested i + 1) }
  | .execute i => some { s with executed := Function.update s.executed i (s.executed i + 1) }
  | .fail i e => some { s with outcome := Function.update s.outcome i (.failed e) }
  | .return i v => some { s with outcome := Function.update s.outcome i (.returned v) }

/-- The condition on the state before a step. -/
def Allowed (c : Contract ι ε ρ) (s : CallService ι ε ρ) : Event ι ε ρ → Prop
  | .request i => s.outcome i = .pending ∧ (c.once → s.requested i = 0)
  | .execute i => s.executed i < s.requested i
  | .fail i e => s.outcome i = .pending ∧ (s.requested i = 0 ↔ c.unsent e)
  | .return i v => s.outcome i = .pending ∧ 0 < s.executed i ∧ c.answers i v

/-- A system keeps the contract in a step: seen as a service, it takes a step
that is allowed, or none. -/
def Keeps [DecidableEq ι] (c : Contract ι ε ρ) (s s' : CallService ι ε ρ) : Prop :=
  s' = s ∨ ∃ e, s.Allowed c e ∧ s.step e = some s'

end CallService

end CppRpc
