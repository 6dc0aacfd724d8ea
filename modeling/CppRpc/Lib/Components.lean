import CppRpc.Lib.Runs

/-!
# Systems with parts

A composed system whose parts are systems of their own.  `refines` says that what
a view shows of a run is a run of another system, where each step is one of this
system or shows nothing.  `component` is the case of a part: it is in a state that
it reaches by itself, so what holds in the runs of the part holds of it here.
`invariant_under` is the invariant rule for the rest: a step may use what is known
of all reachable states, of the parts say.
-/

namespace CppRpc.Runs

variable {σ α τ β : Type} {step : σ → α → Option σ} {ok : σ → α → Prop} {init s : σ}

/-- A view that shows a step of another system, or nothing, of each step. -/
theorem ReachableIf.refines {stepView : τ → β → Option τ} {okView : τ → β → Prop} (view : σ → τ)
    (hstep : ∀ s a s', ReachableIf step ok init s → ok s a → step s a = some s' →
      view s' = view s ∨ ∃ b, okView (view s) b ∧ stepView (view s) b = some (view s'))
    (h : ReachableIf step ok init s) : ReachableIf stepView okView (view init) (view s) := by
  induction h with
  | init => exact .init
  | step hr hok hs ih =>
    rcases hstep _ _ _ hr hok hs with heq | ⟨b, hb, hview⟩
    · rw [heq]
      exact ih
    · exact .step ih hb hview

/-- A part that each step leaves alone, or takes a step of its own in. -/
theorem ReachableIf.component {stepPart : τ → β → Option τ} {okPart : τ → β → Prop} (part : σ → τ)
    (hstep : ∀ s a s', ok s a → step s a = some s' → part s' = part s ∨
      ∃ b, okPart (part s) b ∧ stepPart (part s) b = some (part s'))
    (h : ReachableIf step ok init s) : ReachableIf stepPart okPart (part init) (part s) :=
  h.refines part fun s a s' _ => hstep s a s'

/-- The invariant rule, on top of what holds in every reachable state. -/
theorem ReachableIf.invariant_under {P Q : σ → Prop} (hQ : ∀ s, ReachableIf step ok init s → Q s)
    (h0 : P init) (hstep : ∀ s a s', Q s → Q s' → P s → ok s a → step s a = some s' → P s')
    (h : ReachableIf step ok init s) : P s := by
  induction h with
  | init => exact h0
  | step hr hok hs ih => exact hstep _ _ _ (hQ _ hr) (hQ _ (.step hr hok hs)) ih hok hs

end CppRpc.Runs
