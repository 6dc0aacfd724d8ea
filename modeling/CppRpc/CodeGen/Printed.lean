import CppRpc.CodeGen.Parse

/-!
# Lines that are a function as a whole

`Signature.tokens` are the tokens of a function as it is printed.  A line that
has these tokens, and at most a semicolon behind them, has one pair of brackets.
`parseFuncDef_of_spells` says that it is read as it stands, if anything is found
in it.

`PrintedFunc` is a function with spaces and tabs around its tokens, and
`parseFuncDef_line` the result for printed lines.  `paramLoop_more` is the
induction over the parameters: the loop skips the comma with the white space
around it, takes a parameter, and goes on behind its name.
-/

namespace CppRpc

open CText Regex Tokens

/-! ## The tokens of a function -/

/-- The characters of an identifier. -/
def isIdent (c : Char) : Bool := c.isAlphanum || c == '_'

/-- Identifiers and punctuation. -/
def lexicon : Lexicon Char where
  space := isSpace
  word := isIdent
  apart c h := by
    simp only [isIdent, Bool.or_eq_true, beq_iff_eq] at h
    rcases h with hc | rfl
    · exact isSpace_of_isAlphanum hc
    · rfl

/-- The parameters behind the first one. -/
def moreTokens (args : List Arg) : List (List Char) :=
  args.flatMap fun a => [[','], a.type.toList, a.name.toList]

def paramTokens : List Arg → List (List Char)
  | [] => []
  | a :: args => a.type.toList :: a.name.toList :: moreTokens args

def Signature.tokens (sig : Signature) : List (List Char) :=
  [sig.returnArg.type.toList, sig.name.toList, ['(']] ++ (paramTokens sig.funcArgs ++ [[')']])

theorem isIdent_of_isAlpha {c : Char} (h : c.isAlpha = true) : isIdent c = true := by
  rw [isIdent, Char.isAlphanum, h]
  rfl

theorem isSpace_of_isAlpha {c : Char} (h : c.isAlpha = true) : isSpace c = false :=
  lexicon.apart c (isIdent_of_isAlpha h)

theorem isIdent_of_isSpace {c : Char} (h : isSpace c = true) : isIdent c = false :=
  eq_false_of_apart lexicon.apart h

theorem isAlpha_of_not_isIdent {c : Char} (h : isIdent c = false) : c.isAlpha = false := by
  cases halpha : c.isAlpha with
  | false => rfl
  | true =>
    rw [isIdent_of_isAlpha halpha] at h
    cases h

theorem isAlpha_of_isSpace {c : Char} (h : isSpace c = true) : c.isAlpha = false :=
  isAlpha_of_not_isIdent (isIdent_of_isSpace h)

/-- A text that starts with a name is no white space. -/
theorem IsName.stops_isSpace {x t : List Char} (h : IsName x) : Stops isSpace (x ++ t) :=
  stops_append_of_ne_nil (fun c hc => isSpace_of_isAlpha (h.2 c hc)) h.1

theorem IsGap.stops_isAlpha {w t : List Char} (h : IsGap w) : Stops Char.isAlpha (w ++ t) :=
  stops_append_of_ne_nil (fun c hc => isAlpha_of_isSpace (h.2 c hc)) h.1

/-- The name at the start of what has a name for its first token. -/
theorem exists_of_spells_name {x : List Char} {toks : List (List Char)} {s : List Char}
    (hx : IsName x) (h : Spells lexicon (x :: toks) s) :
    ∃ w s', s = w ++ (x ++ s') ∧ (∀ c ∈ w, isSpace c = true) ∧ Stops isIdent s' ∧
      Spells lexicon toks s' :=
  h.word_inv hx.1 fun c hc => isIdent_of_isAlpha (hx.2 c hc)

/-- Two names have white space between them. -/
theorem exists_of_spells_names {x y : List Char} {toks : List (List Char)} {s : List Char}
    (hx : IsName x) (hy : IsName y) (h : Spells lexicon (x :: y :: toks) s) :
    ∃ w₁ w₂ s', s = w₁ ++ (x ++ (w₂ ++ (y ++ s'))) ∧ (∀ c ∈ w₁, isSpace c = true) ∧ IsGap w₂ ∧
      Stops Char.isAlpha s' ∧ Spells lexicon toks s' := by
  obtain ⟨w₁, s₁, rfl, hw₁, hstop, h₁⟩ := exists_of_spells_name hx h
  obtain ⟨w₂, s₂, rfl, hw₂, hstop₂, h₂⟩ := exists_of_spells_name hy h₁
  refine ⟨w₁, w₂, s₂, rfl, hw₁, ⟨?_, hw₂⟩, ?_, h₂⟩
  · rintro rfl
    obtain ⟨c, y, rfl⟩ := List.exists_cons_of_ne_nil hy.1
    have hc := hstop c rfl
    rw [isIdent_of_isAlpha (hy.2 c (List.mem_cons_self ..))] at hc
    cases hc
  · exact fun c hc => isAlpha_of_not_isIdent (hstop₂ c hc)

/-! ## The parameters -/

/-- No parameter starts at a character that is no letter. -/
theorem ways_paramPattern {c : Char} (h : c.isAlpha = false) (s : List Char) :
    ways paramPattern (c :: s) = [] :=
  ways_cons_eq_nil (by simp) h _ s

/-- The loop ends where only white space is left. -/
theorem paramLoop_of_space {s : List Char} (h : ∀ c ∈ s, isSpace c = true) (fuel : Nat) :
    paramLoop (fuel + 1) s = some [] := by
  have hsearch : search paramPattern (s ++ []) =
      (search paramPattern []).map fun m => { m with before := s ++ m.before } :=
    search_append fun c u hc => ways_paramPattern (isAlpha_of_isSpace (h c hc)) u
  rw [List.append_nil] at hsearch
  rw [paramLoop, hsearch]
  rfl

/-- A turn of the loop: what is no letter is skipped. -/
theorem paramLoop_pair {p type w name s : List Char} (hp : ∀ c ∈ p, c.isAlpha = false)
    (htype : IsName type) (hw : IsGap w) (hname : IsName name) (hs : Stops Char.isAlpha s)
    (fuel : Nat) :
    paramLoop (fuel + 1) (p ++ (type ++ (w ++ (name ++ s)))) =
      (paramLoop fuel s).map (⟨String.ofList type, String.ofList name⟩ :: ·) := by
  have hways : (ways paramPattern (type ++ (w ++ (name ++ s)))).head? =
      some ([type, w, name], s) := by
    unfold paramPattern
    refine head?_ways_cons ⟨htype.2, htype.1⟩ (Or.inr hw.stops_isAlpha) ?_
    refine head?_ways_cons ⟨hw.2, hw.1⟩ (Or.inr hname.stops_isSpace) ?_
    refine head?_ways_cons ⟨hname.2, hname.1⟩ (Or.inr hs) ?_
    rfl
  rw [paramLoop, search_append fun c u hc => ways_paramPattern (hp c hc) u,
    search_of_head? hways]
  rfl

/-- The loop takes the parameters behind the first one in their order. -/
theorem paramLoop_more {args : List Arg}
    (hargs : ∀ a ∈ args, IsName a.type.toList ∧ IsName a.name.toList) {s : List Char}
    (h : Spells lexicon (moreTokens args) s) {fuel : Nat} (hfuel : args.length < fuel) :
    paramLoop fuel s = some args := by
  induction args generalizing s fuel with
  | nil =>
    cases fuel with
    | zero => cases hfuel
    | succ fuel => exact paramLoop_of_space h.nil_inv fuel
  | cons a args ih =>
    cases fuel with
    | zero => cases hfuel
    | succ fuel =>
      obtain ⟨⟨htype, hname⟩, hargs⟩ := List.forall_mem_cons.mp hargs
      obtain ⟨w, s₁, rfl, hw, h₁⟩ := h.first_mark_inv rfl
      obtain ⟨w₁, w₂, s₂, rfl, hw₁, hw₂, hstop, h₂⟩ := exists_of_spells_names htype hname h₁
      -- the comma and the white space around it
      have hskip : ∀ c ∈ w ++ (',' :: w₁), c.isAlpha = false := by
        intro c hc
        rcases List.mem_append.mp hc with hc | hc
        · exact isAlpha_of_isSpace (hw c hc)
        · rcases List.mem_cons.mp hc with rfl | hc
          · rfl
          · exact isAlpha_of_isSpace (hw₁ c hc)
      have hturn := paramLoop_pair hskip htype hw₂ hname hstop fuel
      rw [List.append_assoc, List.cons_append] at hturn
      rw [hturn, ih hargs h₂ (Nat.lt_of_succ_lt_succ hfuel), String.ofList_toList,
        String.ofList_toList]
      rfl

/-- The loop reads a list of parameters as it stands. -/
theorem paramLoop_of_spells {args : List Arg}
    (hargs : ∀ a ∈ args, IsName a.type.toList ∧ IsName a.name.toList) {s : List Char}
    (h : Spells lexicon (paramTokens args) s) {fuel : Nat} (hfuel : args.length < fuel) :
    paramLoop fuel s = some args := by
  cases args with
  | nil => exact paramLoop_more hargs h hfuel
  | cons a args =>
    cases fuel with
    | zero => cases hfuel
    | succ fuel =>
      obtain ⟨⟨htype, hname⟩, hargs⟩ := List.forall_mem_cons.mp hargs
      obtain ⟨w₁, w₂, s', rfl, hw₁, hw₂, hstop, h'⟩ := exists_of_spells_names htype hname h
      rw [paramLoop_pair (fun c hc => isAlpha_of_isSpace (hw₁ c hc)) htype hw₂ hname hstop,
        paramLoop_more hargs h' (Nat.lt_of_succ_lt_succ hfuel), String.ofList_toList,
        String.ofList_toList]
      rfl

theorem length_le_of_spells_params {args : List Arg} {s : List Char}
    (h : Spells lexicon (paramTokens args) s) : args.length ≤ s.length := by
  refine Nat.le_trans ?_ h.length_le
  cases args with
  | nil => exact Nat.le_refl 0
  | cons a args =>
    simp only [paramTokens, moreTokens, List.length_cons, List.length_flatMap, List.length_nil,
      List.map_const', List.sum_replicate_nat]
    omega

/-! ## The whole line -/

section Brackets

variable {c : Char} (hc : c = '(' ∨ c = ')')
include hc

theorem isSpace_of_bracket : isSpace c = false := by
  rcases hc with rfl | rfl <;> rfl

theorem bracket_notMem_name {x : List Char} (hx : IsName x) : c ∉ x := by
  intro hmem
  have halpha := hx.2 c hmem
  rcases hc with rfl | rfl <;> cases halpha

theorem bracket_notMem_space {w : List Char} (hw : ∀ d ∈ w, isSpace d = true) : c ∉ w := by
  intro hmem
  have hspace := hw c hmem
  rw [isSpace_of_bracket hc] at hspace
  cases hspace

theorem bracket_notMem_params {args : List Arg}
    (hargs : ∀ a ∈ args, IsName a.type.toList ∧ IsName a.name.toList) {s : List Char}
    (h : Spells lexicon (paramTokens args) s) : c ∉ s := by
  intro hmem
  obtain ⟨x, hx, hcx⟩ := h.exists_mem hmem (isSpace_of_bracket hc)
  have hmore : ∀ {args : List Arg}, (∀ a ∈ args, IsName a.type.toList ∧ IsName a.name.toList) →
      x ∉ moreTokens args := by
    intro args hargs hx
    obtain ⟨a, ha, hx⟩ := List.mem_flatMap.mp hx
    simp only [List.mem_cons, List.not_mem_nil, or_false] at hx
    rcases hx with rfl | rfl | rfl
    · rcases hc with rfl | rfl <;> simp at hcx
    · exact bracket_notMem_name hc (hargs a ha).1 hcx
    · exact bracket_notMem_name hc (hargs a ha).2 hcx
  cases args with
  | nil => exact absurd hx List.not_mem_nil
  | cons a args =>
    obtain ⟨⟨htype, hname⟩, hargs⟩ := List.forall_mem_cons.mp hargs
    rcases List.mem_cons.mp hx with rfl | hx
    · exact bracket_notMem_name hc htype hcx
    rcases List.mem_cons.mp hx with rfl | hx
    · exact bracket_notMem_name hc hname hcx
    · exact hmore hargs hx

theorem bracket_notMem_rest {e : List (List Char)} (he : e = [] ∨ e = [[';']]) {s : List Char}
    (h : Spells lexicon e s) : c ∉ s := by
  intro hmem
  obtain ⟨x, hx, hcx⟩ := h.exists_mem hmem (isSpace_of_bracket hc)
  rcases he with rfl | rfl
  · cases hx
  · rw [List.mem_singleton] at hx
    subst hx
    rcases hc with rfl | rfl <;> simp at hcx

end Brackets

/-- Where there is one closing bracket, it ends the parameters. -/
theorem head?_ways_params {params rest : List Char} (hdot : ∀ c ∈ params, isDot c = true)
    (hparams : ')' ∉ params) (hrest : ')' ∉ rest) :
    (ways [⟨isDot, .star, true⟩, ⟨(· == ')'), .once, false⟩] (params ++ ')' :: rest)).head? =
      some ([params, [')']], rest) := by
  apply head?_ways_of_unique
  · refine mem_ways.mpr ⟨by simp, ?_⟩
    exact .cons ⟨hdot, trivial⟩ <| .cons ⟨by simp, rfl⟩ .nil
  · rintro ⟨pieces, rest'⟩ hmem
    obtain ⟨heq, hpieces⟩ := mem_ways.mp hmem
    dsimp only at heq hpieces
    simp only [List.forall₂_cons_left_iff, List.forall₂_nil_left_iff] at hpieces
    obtain ⟨params', -, -, ⟨e, -, ⟨hclose, he⟩, rfl, rfl⟩, rfl⟩ := hpieces
    obtain ⟨d, rfl⟩ := List.length_eq_one_iff.mp he
    obtain rfl : d = ')' := by simpa using hclose
    simp only [List.flatten_cons, List.flatten_nil, List.append_assoc, List.append_nil,
      List.cons_append, List.nil_append] at heq
    obtain ⟨rfl, -, rfl⟩ := (List.append_cons_inj_of_notMem hparams hrest).mp heq
    rfl

/-- A line that is a function as a whole is read as it stands. -/
theorem parseFuncDef_of_spells {sig : Signature} (hsig : sig.Alphabetic)
    (hresult : sig.returnArg.name = "result") {e : List (List Char)} (he : e = [] ∨ e = [[';']])
    {line : List Char} (h : Spells lexicon (sig.tokens ++ e) line) (hhas : HasSignature line) :
    parseFuncDef line = some sig := by
  simp only [Signature.tokens, List.cons_append, List.nil_append, List.append_assoc] at h
  obtain ⟨w₁, w₂, s₁, rfl, hw₁, hw₂, hstop, h₁⟩ := exists_of_spells_names hsig.type hsig.name h
  obtain ⟨w₃, s₂, rfl, hw₃, h₂⟩ := h₁.first_mark_inv rfl
  obtain ⟨params, rest, rfl, hparams, hrest⟩ := h₂.mark_inv rfl
  have hclose : ')' ∉ params := bracket_notMem_params (Or.inr rfl) hsig.args hparams
  have hclose' : ')' ∉ rest := bracket_notMem_rest (Or.inr rfl) he hrest
  -- the brackets that the search finds are the ones of the function
  have hdot : ∀ c ∈ params, isDot c = true := by
    obtain ⟨a, type, v₁, name, v₂, params', b, -, -, -, -, hdot, hline⟩ := hhas
    have hfront : '(' ∉ w₁ ++ (sig.returnArg.type.toList ++ (w₂ ++ (sig.name.toList ++ w₃))) := by
      simp only [List.mem_append, not_or]
      exact ⟨bracket_notMem_space (Or.inl rfl) hw₁, bracket_notMem_name (Or.inl rfl) hsig.type,
        bracket_notMem_space (Or.inl rfl) hw₂.2, bracket_notMem_name (Or.inl rfl) hsig.name,
        bracket_notMem_space (Or.inl rfl) hw₃⟩
    have hbehind : '(' ∉ params ++ ')' :: rest := by
      simp only [List.mem_append, List.mem_cons, not_or]
      exact ⟨bracket_notMem_params (Or.inl rfl) hsig.args hparams, by decide,
        bracket_notMem_rest (Or.inl rfl) he hrest⟩
    have hbrackets : (w₁ ++ (sig.returnArg.type.toList ++ (w₂ ++ (sig.name.toList ++ w₃)))) ++
        '(' :: (params ++ ')' :: rest) =
        (a ++ (type ++ (v₁ ++ (name ++ v₂)))) ++ '(' :: (params' ++ ')' :: b) := by
      simpa only [List.append_assoc] using hline
    obtain ⟨-, -, hbehind_eq⟩ := (List.append_cons_inj_of_notMem hfront hbehind).mp hbrackets
    obtain ⟨rfl, -, -⟩ := (List.append_cons_inj_of_notMem hclose hclose').mp hbehind_eq
    exact hdot
  have hways : (ways funcPattern (w₁ ++ (sig.returnArg.type.toList ++ (w₂ ++ (sig.name.toList ++
      (w₃ ++ '(' :: (params ++ ')' :: rest))))))).head? = some ([w₁, sig.returnArg.type.toList, w₂,
        sig.name.toList, w₃, ['('], params, [')']], rest) := by
    unfold funcPattern
    refine head?_ways_cons ⟨hw₁, trivial⟩ (Or.inr hsig.type.stops_isSpace) ?_
    refine head?_ways_cons ⟨hsig.type.2, hsig.type.1⟩ (Or.inr hw₂.stops_isAlpha) ?_
    refine head?_ways_cons ⟨hw₂.2, hw₂.1⟩ (Or.inr hsig.name.stops_isSpace) ?_
    refine head?_ways_cons ⟨hsig.name.2, hsig.name.1⟩ (Or.inr hstop) ?_
    refine head?_ways_cons ⟨hw₃, trivial⟩ (Or.inr (stops_cons rfl)) ?_
    refine head?_ways_cons (x := ['(']) ⟨by simp, rfl⟩ (Or.inl rfl) ?_
    exact head?_ways_params hdot hclose hclose'
  have hloop := paramLoop_of_spells hsig.args hparams
    (Nat.lt_succ_of_le (length_le_of_spells_params hparams))
  rw [parseFuncDef_of_search (search_of_head? hways) rfl, hloop, Option.map_some,
    String.ofList_toList, String.ofList_toList, ← hresult]

/-! ## Printed functions -/

/-- A type or a name. -/
structure Word where
  chars : List Char
  isName : IsName chars

/-- Spaces and tabs. -/
structure Blank where
  chars : List Char
  blank : ∀ c ∈ chars, c = ' ' ∨ c = '\t'

/-- Spaces and tabs between two words. -/
structure Separator extends Blank where
  ne_nil : chars ≠ []

structure PrintedParam where
  before : Blank
  type : Word
  between : Separator
  name : Word
  after : Blank

/-- `within` stands between the brackets if there are no parameters. -/
structure PrintedFunc where
  before : Blank
  returnType : Word
  between : Separator
  name : Word
  behind : Blank
  params : List PrintedParam
  within : Blank
  after : Blank

def PrintedParam.text (p : PrintedParam) : List Char :=
  p.before.chars ++ (p.type.chars ++ (p.between.chars ++ (p.name.chars ++ p.after.chars)))

def PrintedParam.arg (p : PrintedParam) : Arg :=
  ⟨String.ofList p.type.chars, String.ofList p.name.chars⟩

namespace PrintedFunc

def paramsText (f : PrintedFunc) : List Char :=
  match f.params with
  | [] => f.within.chars
  | p :: ps => p.text ++ ps.flatMap fun p => ',' :: p.text

def line (f : PrintedFunc) : List Char :=
  f.before.chars ++ (f.returnType.chars ++ (f.between.chars ++ (f.name.chars ++
    (f.behind.chars ++ '(' :: (f.paramsText ++ ')' :: f.after.chars)))))

def signature (f : PrintedFunc) : Signature :=
  ⟨⟨String.ofList f.returnType.chars, "result"⟩, String.ofList f.name.chars,
    f.params.map PrintedParam.arg⟩

end PrintedFunc

theorem Blank.isSpace (w : Blank) : ∀ c ∈ w.chars, isSpace c = true := by
  intro c hc
  rcases w.blank c hc with rfl | rfl <;> rfl

theorem Blank.isDot (w : Blank) : ∀ c ∈ w.chars, isDot c = true := by
  intro c hc
  rcases w.blank c hc with rfl | rfl <;> rfl

theorem Word.isDot (x : Word) : ∀ c ∈ x.chars, isDot c = true := by
  intro c hc
  have halpha := x.isName.2 c hc
  by_contra hdot
  simp only [CppRpc.isDot, Bool.and_eq_true, bne_iff_ne, not_and_or, not_not] at hdot
  rcases hdot with rfl | rfl <;> cases halpha

/-- Two words and the spaces and tabs around them. -/
theorem spells_words (w₁ : Blank) (x : Word) (w₂ : Separator) (y : Word) (w₃ : Blank)
    {toks : List (List Char)} {t : List Char} (ht : Stops isIdent t) (h : Spells lexicon toks t) :
    Spells lexicon (x.chars :: y.chars :: toks)
      (w₁.chars ++ (x.chars ++ (w₂.chars ++ (y.chars ++ (w₃.chars ++ t))))) := by
  have hx : ∀ c ∈ x.chars, isIdent c = true := fun c hc => isIdent_of_isAlpha (x.isName.2 c hc)
  have hy : ∀ c ∈ y.chars, isIdent c = true := fun c hc => isIdent_of_isAlpha (y.isName.2 c hc)
  apply Spells.append_left _ w₁.isSpace
  refine .word x.isName.1 hx ?_ (Spells.append_left (.word y.isName.1 hy ?_ ?_) w₂.isSpace)
  · exact stops_append_of_ne_nil (fun c hc => isIdent_of_isSpace (w₂.isSpace c hc)) w₂.ne_nil
  · exact stops_append (fun c hc => isIdent_of_isSpace (w₃.isSpace c hc)) ht
  · exact h.append_left w₃.isSpace

theorem spells_param (p : PrintedParam) {toks : List (List Char)} {t : List Char}
    (ht : Stops isIdent t) (h : Spells lexicon toks t) :
    Spells lexicon (p.arg.type.toList :: p.arg.name.toList :: toks) (p.text ++ t) := by
  simp only [PrintedParam.arg, String.toList_ofList, PrintedParam.text, List.append_assoc]
  exact spells_words p.before p.type p.between p.name p.after ht h

/-- A comma or a bracket ends a word. -/
theorem stops_more (ps : List PrintedParam) {t : List Char} (ht : Stops isIdent t) :
    Stops isIdent ((ps.flatMap fun p => ',' :: p.text) ++ t) := by
  cases ps with
  | nil => exact ht
  | cons p ps => exact stops_cons rfl

theorem spells_more (ps : List PrintedParam) {toks : List (List Char)} {t : List Char}
    (ht : Stops isIdent t) (h : Spells lexicon toks t) :
    Spells lexicon (moreTokens (ps.map PrintedParam.arg) ++ toks)
      ((ps.flatMap fun p => ',' :: p.text) ++ t) := by
  induction ps with
  | nil => exact h
  | cons p ps ih =>
    have hparam := spells_param p (stops_more ps ht) ih
    rw [← List.append_assoc] at hparam
    exact .mark rfl rfl hparam

namespace PrintedFunc

variable (f : PrintedFunc)

theorem spells_paramsText {toks : List (List Char)} {t : List Char} (ht : Stops isIdent t)
    (h : Spells lexicon toks t) :
    Spells lexicon (paramTokens f.signature.funcArgs ++ toks) (f.paramsText ++ t) := by
  unfold signature paramsText
  cases f.params with
  | nil => exact h.append_left f.within.isSpace
  | cons p ps =>
    have hparam := spells_param p (stops_more ps ht) (spells_more ps ht h)
    rw [← List.append_assoc] at hparam
    exact hparam

theorem spells_line : Spells lexicon (f.signature.tokens ++ []) f.line := by
  have hend : Spells lexicon [[')']] (')' :: f.after.chars) := by
    have hblank := Spells.nil.append_left (L := lexicon) f.after.isSpace
    rw [List.append_nil] at hblank
    exact .mark rfl rfl hblank
  have hopen : Spells lexicon (['('] :: (paramTokens f.signature.funcArgs ++ [[')']]))
      ('(' :: (f.paramsText ++ ')' :: f.after.chars)) :=
    .mark rfl rfl (f.spells_paramsText (stops_cons rfl) hend)
  have hwords := spells_words f.before f.returnType f.between f.name f.behind (stops_cons rfl) hopen
  rw [List.append_nil, Signature.tokens]
  simpa only [line, signature, String.toList_ofList, List.cons_append, List.nil_append] using hwords

theorem alphabetic_signature : f.signature.Alphabetic := by
  refine ⟨?_, ?_, fun a ha => ?_⟩
  · simpa only [signature, String.toList_ofList] using f.returnType.isName
  · simpa only [signature, String.toList_ofList] using f.name.isName
  · obtain ⟨p, -, rfl⟩ := List.mem_map.mp ha
    simpa only [PrintedParam.arg, String.toList_ofList] using And.intro p.type.isName p.name.isName

/-- Nothing in the parameters ends the line. -/
theorem isDot_paramsText : ∀ c ∈ f.paramsText, isDot c = true := by
  have hparam : ∀ p : PrintedParam, ∀ c ∈ p.text, isDot c = true := by
    intro p c hc
    simp only [PrintedParam.text, List.mem_append] at hc
    rcases hc with hc | hc | hc | hc | hc
    · exact p.before.isDot c hc
    · exact p.type.isDot c hc
    · exact p.between.isDot c hc
    · exact p.name.isDot c hc
    · exact p.after.isDot c hc
  intro c hc
  unfold paramsText at hc
  split at hc
  · exact f.within.isDot c hc
  · rcases List.mem_append.mp hc with hc | hc
    · exact hparam _ c hc
    · obtain ⟨p, -, hc⟩ := List.mem_flatMap.mp hc
      rcases List.mem_cons.mp hc with rfl | hc
      · rfl
      · exact hparam p c hc

theorem hasSignature_line : HasSignature f.line :=
  ⟨f.before.chars, f.returnType.chars, f.between.chars, f.name.chars, f.behind.chars, f.paramsText,
    f.after.chars, f.returnType.isName, ⟨f.between.ne_nil, f.between.isSpace⟩, f.name.isName,
    f.behind.isSpace, f.isDot_paramsText, rfl⟩

/-- For every printed function: `parse_func_def` returns `true` and hands back
what was printed, and the loop over the parameters ends. -/
theorem parseFuncDef_line :
    parseFuncDef f.line = some f.signature ∧
      ∀ fuel, f.params.length < fuel →
        paramLoop fuel f.paramsText = some f.signature.funcArgs := by
  constructor
  · exact parseFuncDef_of_spells f.alphabetic_signature rfl (Or.inl rfl) f.spells_line
      f.hasSignature_line
  · intro fuel hfuel
    have hspells := f.spells_paramsText stops_nil Spells.nil
    rw [List.append_nil, List.append_nil] at hspells
    refine paramLoop_of_spells f.alphabetic_signature.args hspells ?_
    rwa [signature, List.length_map]

end PrintedFunc

end CppRpc
