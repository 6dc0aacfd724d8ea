import Mathlib.Data.List.Basic

/-!
# Runs of a step function

A system is a step function `σ → α → Option σ`: the state after one action, or
`none` when the action is not enabled.  A run interleaves the actions of every
thread in any order, so "any interleaving" is "any list of actions".

`ReachableIf step ok init` is the set of states that a run reaches whose steps
all meet `ok`, a condition on the state before the step and on the action.
`Reachable` is the unconditional case.  There are three groups.

* The invariant rule `ReachableIf.invariant`, which is the one induction on
  runs that every safety proof uses, and `ReachableIf.invariant_enabled`, its
  form for a system that never gets stuck.
* Executable runs: `runIf` folds the step function over a list of actions, and
  `exists_reachable_of_run` turns an evaluated run into a reachable state.
* Observed runs: `outputs` is the list of answers of a machine, and
  `outputs_eq_iff` says exactly when two machines in a simulation answer alike.
  `OkAlong` asks a condition of every step, and `okAlong_iff` exchanges it.
-/

namespace CppRpc.Runs

variable {σ α : Type}

/-! ## Reachable states -/

/-- The states reached from `init` by steps that all meet `ok`. -/
inductive ReachableIf (step : σ → α → Option σ) (ok : σ → α → Prop) (init : σ) : σ → Prop
  | init : ReachableIf step ok init init
  | step {s s' : σ} {a : α} : ReachableIf step ok init s → ok s a → step s a = some s' →
      ReachableIf step ok init s'

/-- The states reached from `init` by any steps. -/
abbrev Reachable (step : σ → α → Option σ) (init : σ) : σ → Prop :=
  ReachableIf step (fun _ _ => True) init

/-- The invariant rule: what holds initially and is kept by every step that
meets the condition holds in every reachable state. -/
theorem ReachableIf.invariant {step : σ → α → Option σ} {ok : σ → α → Prop} {init : σ}
    {P : σ → Prop} (h0 : P init)
    (hstep : ∀ s a s', P s → ok s a → step s a = some s' → P s') {s : σ}
    (h : ReachableIf step ok init s) : P s := by
  induction h with
  | init => exact h0
  | step _ hok hs ih => exact hstep _ _ _ ih hok hs

/-- A run under a condition is a run under a weaker one. -/
theorem ReachableIf.mono {step : σ → α → Option σ} {ok ok' : σ → α → Prop} {init s : σ}
    (hok : ∀ s a, ok s a → ok' s a) (h : ReachableIf step ok init s) :
    ReachableIf step ok' init s := by
  induction h with
  | init => exact .init
  | step _ ha hs ih => exact .step ih (hok _ _ ha) hs

/-- The invariant rule for a system that no allowed step gets stuck in: every
step that meets the condition is enabled and keeps the invariant. -/
theorem ReachableIf.invariant_enabled {step : σ → α → Option σ} {ok : σ → α → Prop} {init : σ}
    {P : σ → Prop} (h0 : P init) (hstep : ∀ s a, P s → ok s a → ∃ s', step s a = some s' ∧ P s')
    {s : σ} (h : ReachableIf step ok init s) : P s ∧ ∀ a, ok s a → (step s a).isSome := by
  have hP : P s := by
    refine h.invariant h0 fun s a s' hs hok hs' => ?_
    obtain ⟨s₁, hs₁, hP₁⟩ := hstep s a hs hok
    rw [hs₁] at hs'
    cases hs'
    exact hP₁
  refine ⟨hP, fun a hok => ?_⟩
  obtain ⟨s', hs', -⟩ := hstep s a hP hok
  rw [hs']
  rfl

/-! ## Executable runs -/

section Run

variable {step : σ → α → Option σ} {ok : σ → α → Prop} [∀ s a, Decidable (ok s a)] {init : σ}

/-- The state after a list of actions, or `none` when one of them is not
enabled or does not meet `ok`. -/
def runIf (step : σ → α → Option σ) (ok : σ → α → Prop) [∀ s a, Decidable (ok s a)] :
    σ → List α → Option σ
  | s, [] => some s
  | s, a :: as => if ok s a then (step s a).bind fun s' => runIf step ok s' as else none

/-- The state after a list of actions, or `none` when one is not enabled. -/
abbrev run (step : σ → α → Option σ) : σ → List α → Option σ := runIf step fun _ _ => True

/-- A run from a reachable state ends in a reachable state. -/
theorem ReachableIf.runIf {s s' : σ} {as : List α} (h : ReachableIf step ok init s)
    (hr : runIf step ok s as = some s') : ReachableIf step ok init s' := by
  induction as generalizing s with
  | nil =>
    cases hr
    exact h
  | cons a as ih =>
    rw [Runs.runIf] at hr
    split at hr
    · rename_i hok
      obtain ⟨s₁, hs, hr⟩ := Option.bind_eq_some_iff.mp hr
      exact ih (.step h hok hs) hr
    · cases hr

/-- A property of the final state of an evaluated run holds of some reachable
state. -/
theorem exists_reachable_of_run (as : List α) {P : σ → Prop}
    (h : ∃ s ∈ runIf step ok init as, P s) : ∃ s, ReachableIf step ok init s ∧ P s := by
  obtain ⟨s, hs, hP⟩ := h
  exact ⟨s, .runIf .init hs, hP⟩

end Run

/-! ## Observed runs -/

section Outputs

variable {σ' ι ο : Type}

/-- The answers of a machine to a list of inputs, or `none` when it gets stuck
on one of them. -/
def outputs (next : σ → ι → Option (ο × σ)) : σ → List ι → Option (List ο)
  | _, [] => some []
  | s, i :: is => (next s i).bind fun r => (outputs next r.2 is).map (r.1 :: ·)

/-- Every step that the machine takes on a list of inputs meets `ok`. -/
def OkAlong (next : σ → ι → Option (ο × σ)) (ok : σ → ι → Prop) : σ → List ι → Prop
  | _, [] => True
  | s, i :: is => ok s i ∧ ∀ r ∈ next s i, OkAlong next ok r.2 is

variable {next : σ → ι → Option (ο × σ)} {next' : σ' → ι → Option (ο × σ')}
  {ok : σ → ι → Prop} {R : σ → σ' → Prop}

/-- Two conditions that agree wherever an invariant holds that they keep agree
along every list of inputs. -/
theorem okAlong_iff {ok' : σ → ι → Prop} {P : σ → Prop} (hiff : ∀ s i, P s → (ok s i ↔ ok' s i))
    (hkeep : ∀ s i r, P s → ok s i → next s i = some r → P r.2) {s : σ} (h : P s) (is : List ι) :
    OkAlong next ok s is ↔ OkAlong next ok' s is := by
  induction is generalizing s with
  | nil => exact Iff.rfl
  | cons i is ih =>
    rw [OkAlong, OkAlong, ← hiff s i h]
    apply and_congr_right
    intro hi
    apply forall₂_congr
    intro r hr
    exact ih (hkeep s i r h hi hr)

/-- The refinement rule, in its exact form.  Where a step that meets `ok` keeps
the relation and gets the same answer from both machines, and a step that does
not meet it gets different answers, the two machines answer a whole list of
inputs alike exactly when every step meets `ok`. -/
theorem outputs_eq_iff
    (hok : ∀ s t i, R s t → ok s i →
      ∃ o s' t', next s i = some (o, s') ∧ next' t i = some (o, t') ∧ R s' t')
    (hbad : ∀ s t i, R s t → ¬ ok s i →
      ∃ o s' o' t', next s i = some (o, s') ∧ next' t i = some (o', t') ∧ o ≠ o')
    (hlive : ∀ t is, (outputs next' t is).isSome) {s : σ} {t : σ'} (h : R s t) (is : List ι) :
    outputs next s is = outputs next' t is ↔ OkAlong next ok s is := by
  induction is generalizing s t with
  | nil => simp [outputs, OkAlong]
  | cons i is ih =>
    by_cases hi : ok s i
    · obtain ⟨o, s', t', hs, ht, hR⟩ := hok s t i h hi
      have hmap : ∀ a b : Option (List ο), a.map (o :: ·) = b.map (o :: ·) ↔ a = b := by
        intro a b
        cases a <;> cases b <;> simp
      simp only [outputs, OkAlong, hs, ht, Option.bind_some, hmap, ih hR, Option.mem_some_iff,
        forall_eq', hi, true_and]
    · obtain ⟨o, s', o', t', hs, ht, hne⟩ := hbad s t i h hi
      simp only [outputs, OkAlong, hs, ht, Option.bind_some, hi, false_and, iff_false]
      intro heq
      obtain ⟨os, hos⟩ := Option.isSome_iff_exists.mp (hlive t' is)
      rw [hos] at heq
      cases hc : outputs next s' is with
      | none => simp [hc] at heq
      | some cs =>
        rw [hc] at heq
        simp only [Option.map_some, Option.some.injEq, List.cons.injEq] at heq
        exact hne heq.1

end Outputs

end CppRpc.Runs
