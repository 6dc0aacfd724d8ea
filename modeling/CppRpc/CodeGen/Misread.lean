import CppRpc.CodeGen.Printed

/-!
# Lines that are misread

`parse_func_def` finds a function anywhere in a line, and parameters anywhere
between the brackets.  What it skips is lost.

`ReadAsWritten` is the property of a line: what is handed back has the tokens of
the whole line.  `IsFunction` is the condition on the tokens, and
`readAsWritten_iff` the result.
-/

namespace CppRpc

open Tokens

/-- The property of a line. -/
def ReadAsWritten (line : List Char) : Prop :=
  ∀ sig, parseFuncDef line = some sig →
    tokens lexicon line = sig.tokens ∨ tokens lexicon line = sig.tokens ++ [[';']]

/-- The condition on a line: as a whole it is a function with alphabetic words. -/
def IsFunction (line : List Char) : Prop :=
  ∃ sig : Signature, sig.Alphabetic ∧
    (tokens lexicon line = sig.tokens ∨ tokens lexicon line = sig.tokens ++ [[';']])

/-- A line that is a function as a whole is read as this function. -/
theorem parseFuncDef_of_isFunction {line : List Char} (h : IsFunction line)
    (hhas : HasSignature line) :
    ∃ sig, parseFuncDef line = some sig ∧
      (tokens lexicon line = sig.tokens ∨ tokens lexicon line = sig.tokens ++ [[';']]) := by
  obtain ⟨⟨⟨type, x⟩, name, args⟩, halpha, htokens⟩ := h
  -- the name of the return argument is no token
  let sig : Signature := ⟨⟨type, "result"⟩, name, args⟩
  have hsig : sig.Alphabetic := ⟨halpha.type, halpha.name, halpha.args⟩
  have hspells := spells_tokens lexicon line
  refine ⟨sig, ?_, htokens⟩
  rcases htokens with heq | heq
  · rw [heq, ← List.append_nil (Signature.tokens _)] at hspells
    exact parseFuncDef_of_spells hsig rfl (Or.inl rfl) hspells hhas
  · rw [heq] at hspells
    exact parseFuncDef_of_spells hsig rfl (Or.inr rfl) hspells hhas

/-- For every line: it is not misread if and only if it is a function as a whole,
or has nothing in it that the search would find. -/
theorem readAsWritten_iff (line : List Char) :
    ReadAsWritten line ↔ (HasSignature line → IsFunction line) := by
  constructor
  · intro h hhas
    obtain ⟨sig, hsig⟩ := Option.isSome_iff_exists.mp (isSome_parseFuncDef_iff.mpr hhas)
    exact ⟨sig, (alphabetic_of_parseFuncDef hsig).1, h sig hsig⟩
  · intro h sig hsig
    have hhas : HasSignature line := isSome_parseFuncDef_iff.mp (by rw [hsig]; rfl)
    obtain ⟨sig', hsig', htokens⟩ := parseFuncDef_of_isFunction (h hhas) hhas
    rw [hsig] at hsig'
    cases hsig'
    exact htokens

/-- A type of two words. -/
theorem long_long_is_misread : ¬ ReadAsWritten "long long f(int a)".toList := by
  intro h
  have hparse : parseFuncDef "long long f(int a)".toList =
      some ⟨⟨"long", "result"⟩, "f", [⟨"int", "a"⟩]⟩ := by rfl
  rcases h _ hparse with htokens | htokens
  · revert htokens
    decide
  · revert htokens
    decide

end CppRpc
