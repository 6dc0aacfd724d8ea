import CppRpc.Lib.Runs

/-!
# Progress of a run

What a run comes to, however its steps interleave.  `Passes` says that a run
goes through a state with a property.  `passes_of_rank` is the rule of a rank:
some of the actions, those of one thread say, take it down, and the others do
not take it up; then a run with more such actions than the rank is high goes
through a state with the property.  `length_le_of_rank` is the case in which
every action takes it down, and `settles_of_rank` what follows from it: all runs
come to an end, and there to what the rest tells.
-/

namespace CppRpc.Runs

variable {σ α : Type} {step : σ → α → Option σ} {ok : σ → α → Prop}
  [∀ s a, Decidable (ok s a)]

/-- The run of the actions goes through a state with the property. -/
def Passes (step : σ → α → Option σ) (ok : σ → α → Prop) [∀ s a, Decidable (ok s a)]
    (P : σ → Prop) (s : σ) (as : List α) : Prop :=
  ∃ bs cs s₁, as = bs ++ cs ∧ runIf step ok s bs = some s₁ ∧ P s₁

/-- The first action of a run. -/
theorem runIf_cons {s s' : σ} {a : α} {as : List α} (h : runIf step ok s (a :: as) = some s') :
    ok s a ∧ ∃ s₁, step s a = some s₁ ∧ runIf step ok s₁ as = some s' := by
  rw [runIf] at h
  split at h
  · rename_i hok
    obtain ⟨s₁, hs, hr⟩ := Option.bind_eq_some_iff.mp h
    exact ⟨hok, s₁, hs, hr⟩
  · cases h

theorem Passes.cons {P : σ → Prop} {s s₁ : σ} {a : α} {as : List α} (hok : ok s a)
    (hs : step s a = some s₁) (h : Passes step ok P s₁ as) : Passes step ok P s (a :: as) := by
  obtain ⟨bs, cs, s₂, rfl, hr, hP⟩ := h
  refine ⟨a :: bs, cs, s₂, rfl, ?_, hP⟩
  rw [runIf, if_pos hok, hs]
  exact hr

theorem passes_singleton {P : σ → Prop} {s s₁ : σ} {a : α} (hok : ok s a)
    (hs : step s a = some s₁) (hP : P s₁) (as : List α) : Passes step ok P s (a :: as) :=
  .cons hok hs ⟨[], as, s₁, rfl, rfl, hP⟩

theorem runIf_append {s s₁ s' : σ} {as bs : List α} (ha : runIf step ok s as = some s₁)
    (hr : runIf step ok s (as ++ bs) = some s') : runIf step ok s₁ bs = some s' := by
  induction as generalizing s with
  | nil =>
    cases ha
    exact hr
  | cons a as ih =>
    obtain ⟨-, t, ht, ha⟩ := runIf_cons ha
    obtain ⟨-, t', ht', hr⟩ := runIf_cons hr
    obtain rfl : t = t' := Option.some.inj (ht.symm.trans ht')
    exact ih ha hr

/-- What no step takes back holds at the end of a run that passes through it. -/
theorem Passes.last {P : σ → Prop} {s s' : σ} {as : List α} (h : Passes step ok P s as)
    (hr : runIf step ok s as = some s')
    (hstep : ∀ s a s', P s → ok s a → step s a = some s' → P s') : P s' := by
  obtain ⟨bs, cs, s₁, rfl, hbs, hP⟩ := h
  have hrest : ReachableIf step ok s₁ s' := .runIf .init (runIf_append hbs hr)
  exact hrest.invariant hP hstep

/-- The rule of a rank.  Until a state with `P` comes, the steps keep `I`, and
those in `mine` take the rank down. -/
theorem passes_of_rank (mine : α → Bool) (I : σ → Prop) (rank : σ → Nat) {P : σ → Prop}
    (hmine : ∀ s a s', I s → ok s a → mine a = true → step s a = some s' →
      P s' ∨ I s' ∧ rank s' < rank s)
    (hother : ∀ s a s', I s → ok s a → mine a = false → step s a = some s' →
      P s' ∨ I s' ∧ rank s' ≤ rank s)
    {s s' : σ} {as : List α} (h : I s) (hr : runIf step ok s as = some s')
    (hcount : rank s < as.countP mine) : Passes step ok P s as := by
  induction as generalizing s with
  | nil => exact absurd hcount (Nat.not_lt_zero _)
  | cons a as ih =>
    obtain ⟨hok, s₁, hs, hr⟩ := runIf_cons hr
    cases ha : mine a with
    | true =>
      rw [List.countP_cons_of_pos ha] at hcount
      rcases hmine s a s₁ h hok ha hs with hP | ⟨hI, hlt⟩
      · exact passes_singleton hok hs hP as
      · exact .cons hok hs (ih hI hr (by omega))
    | false =>
      rw [List.countP_cons_of_neg (by rw [ha]; exact Bool.false_ne_true)] at hcount
      rcases hother s a s₁ h hok ha hs with hP | ⟨hI, hle⟩
      · exact passes_singleton hok hs hP as
      · exact .cons hok hs (ih hI hr (by omega))

/-- Where every step takes the rank down, a run has at most as many steps. -/
theorem length_le_of_rank (I : σ → Prop) (rank : σ → Nat)
    (hstep : ∀ s a s', I s → ok s a → step s a = some s' → I s' ∧ rank s' < rank s)
    {s s' : σ} {as : List α} (h : I s) (hr : runIf step ok s as = some s') :
    as.length ≤ rank s := by
  by_contra hlong
  obtain ⟨-, -, -, -, -, hfalse⟩ : Passes step ok (fun _ => False) s as := by
    apply passes_of_rank (fun _ => true) I rank _ _ h hr
    · rw [List.countP_true]
      omega
    · exact fun s a s' hI hok _ hs => Or.inr (hstep s a s' hI hok hs)
    · exact fun _ _ _ _ _ hfalse => absurd hfalse Bool.true_eq_false.mp
  exact hfalse

/-! ## The end of the runs -/

/-- No step is left. -/
def AtRest (step : σ → α → Option σ) (ok : σ → α → Prop) (s : σ) : Prop :=
  ∀ a, ok s a → step s a = none

/-- The runs from a state come to rest after `n` steps at most, and there `P`
holds. -/
structure Settles (step : σ → α → Option σ) (ok : σ → α → Prop) [∀ s a, Decidable (ok s a)]
    (n : Nat) (P : σ → Prop) (s : σ) : Prop where
  bounded : ∀ as s', runIf step ok s as = some s' → as.length ≤ n
  comes : ∀ as s', runIf step ok s as = some s' →
    ∃ bs s₁, runIf step ok s' bs = some s₁ ∧ AtRest step ok s₁
  holds : ∀ as s', runIf step ok s as = some s' → AtRest step ok s' → P s'

/-- Where every step takes the rank down, there is a run to a state of rest. -/
theorem exists_atRest_of_rank (I : σ → Prop) (rank : σ → Nat)
    (hstep : ∀ s a s', I s → ok s a → step s a = some s' → I s' ∧ rank s' < rank s) {s : σ}
    (h : I s) : ∃ as s', runIf step ok s as = some s' ∧ AtRest step ok s' := by
  induction hn : rank s using Nat.strongRecOn generalizing s with
  | _ n ih =>
    by_cases hrest : AtRest step ok s
    · exact ⟨[], s, rfl, hrest⟩
    · obtain ⟨a, ha⟩ := not_forall.mp hrest
      obtain ⟨hok, hsome⟩ := Classical.not_imp.mp ha
      obtain ⟨s₁, hs⟩ := Option.ne_none_iff_exists'.mp hsome
      obtain ⟨hI, hlt⟩ := hstep s a s₁ h hok hs
      obtain ⟨as, s', hr, hrest⟩ := ih (rank s₁) (by omega) hI rfl
      refine ⟨a :: as, s', ?_, hrest⟩
      rw [runIf, if_pos hok, hs]
      exact hr

/-- The rule of a rank, for all runs from a state. -/
theorem settles_of_rank (I : σ → Prop) (rank : σ → Nat) {P : σ → Prop}
    (hstep : ∀ s a s', I s → ok s a → step s a = some s' → I s' ∧ rank s' < rank s)
    (hrest : ∀ s, I s → AtRest step ok s → P s) {s : σ} (h : I s) :
    Settles step ok (rank s) P s := by
  have hI : ∀ as s', runIf step ok s as = some s' → I s' := by
    intro as s' hr
    have hreach : ReachableIf step ok s s' := .runIf .init hr
    exact hreach.invariant h fun s a s' hs hok hs' => (hstep s a s' hs hok hs').1
  refine ⟨fun as s' hr => length_le_of_rank I rank hstep h hr, fun as s' hr => ?_, ?_⟩
  · exact exists_atRest_of_rank I rank hstep (hI as s' hr)
  · exact fun as s' hr => hrest s' (hI as s' hr)

end CppRpc.Runs
