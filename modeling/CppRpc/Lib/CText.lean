import Mathlib.Data.List.TakeWhile

/-!
# C++ text

A `std::string` is the list of its characters.  `isSpace` is `isspace` in the
"C" locale, which is also what `\s` stands for in a `std::regex`, and `stoi` is
`std::stoi` with base ten and a 32-bit `int`.
-/

namespace CppRpc.CText

def isSpace (c : Char) : Bool :=
  c == ' ' || c == '\t' || c == '\n' || c == '\x0b' || c == '\x0c' || c == '\r'

/-- Two kinds of characters that are apart, the other way round. -/
theorem eq_false_of_apart {p q : Char → Bool} (h : ∀ c, p c = true → q c = false) {c : Char}
    (hq : q c = true) : p c = false := by
  cases hp : p c with
  | false => rfl
  | true =>
    rw [h c hp] at hq
    cases hq

theorem isSpace_of_isAlphanum {c : Char} (h : c.isAlphanum = true) : isSpace c = false := by
  by_contra hspace
  simp only [Bool.not_eq_false, isSpace, Bool.or_eq_true, beq_iff_eq] at hspace
  rcases hspace with ((((rfl | rfl) | rfl) | rfl) | rfl) | rfl <;> revert h <;> decide

/-- The exceptions of `std::stoi`. -/
inductive StoiError
  | invalidArgument
  | outOfRange
  deriving DecidableEq

/-- The number that the digits at the start of a text stand for. -/
def leadingNat (s : List Char) : Nat := Nat.ofDigitChars 10 (s.takeWhile Char.isDigit) 0

theorem leadingNat_of_isDigit {s : List Char} (h : ∀ c ∈ s, c.isDigit = true) :
    leadingNat s = Nat.ofDigitChars 10 s 0 := by
  rw [leadingNat, List.takeWhile_eq_self_iff.mpr h]

/-- The digits of a number, with its sign. -/
def stoiDigits (negative : Bool) (s : List Char) : Except StoiError Int :=
  if s.takeWhile Char.isDigit = [] then .error .invalidArgument
  else
    let n : Int := if negative then -leadingNat s else leadingNat s
    if n < -2147483648 ∨ 2147483647 < n then .error .outOfRange else .ok n

/-- `std::stoi`: white space, a sign and digits; what follows is left alone. -/
def stoi (s : List Char) : Except StoiError Int :=
  match s.dropWhile isSpace with
  | '-' :: s => stoiDigits true s
  | '+' :: s => stoiDigits false s
  | s => stoiDigits false s

/-- A text without white space and without a sign is read from its start. -/
theorem stoi_eq {s : List Char} (h : ∀ c ∈ s.head?, isSpace c = false ∧ c ≠ '-' ∧ c ≠ '+') :
    stoi s = stoiDigits false s := by
  unfold stoi
  cases s with
  | nil => rfl
  | cons c s =>
    obtain ⟨hspace, hminus, hplus⟩ := h c rfl
    rw [List.dropWhile_cons_of_neg (by rw [hspace]; exact Bool.false_ne_true)]
    split
    · rename_i heq
      exact absurd (List.cons.inj heq).1 hminus
    · rename_i heq
      exact absurd (List.cons.inj heq).1 hplus
    · rfl

example : stoi "12ab".toList = .ok 12 := rfl

end CppRpc.CText
