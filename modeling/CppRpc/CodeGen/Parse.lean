import CppRpc.Lib.CText
import CppRpc.Lib.Tokens
import CppRpc.CodeGen.Messages

/-!
# `parse_func_def` of `CodeGen/code_gen.cc`

A line of the definition file is read with two patterns: the first one finds a
function, and the second one the parameters in what stands between its brackets,
one after the other.  Both are searched for anywhere in their text.

`paramLoop` is the `while` loop, whose text gets shorter in every turn
(`search_paramPattern`).  `isSome_parseFuncDef_iff` says in which lines a function
is found, and `alphabetic_of_parseFuncDef` that all its words are alphabetic.
-/

namespace CppRpc

open CText Regex Tokens

/-! ## The code -/

/-- What `.` stands for. -/
def isDot (c : Char) : Bool := c != '\n' && c != '\r'

/-- The pattern of a function, where the compiler drops the backslashes. -/
def funcPattern : Pattern Char :=
  [⟨isSpace, .star, false⟩, ⟨Char.isAlpha, .plus, true⟩, ⟨isSpace, .plus, false⟩,
    ⟨Char.isAlpha, .plus, true⟩, ⟨isSpace, .star, false⟩, ⟨(· == '('), .once, false⟩,
    ⟨isDot, .star, true⟩, ⟨(· == ')'), .once, false⟩]

/-- The pattern of a parameter. -/
def paramPattern : Pattern Char :=
  [⟨Char.isAlpha, .plus, true⟩, ⟨isSpace, .plus, false⟩, ⟨Char.isAlpha, .plus, true⟩]

/-- What `parse_func_def` hands back. -/
structure Signature where
  returnArg : Arg
  name : String
  funcArgs : List Arg

/-- The `while` loop, which goes on with what stands behind a parameter. -/
def paramLoop : Nat → List Char → Option (List Arg)
  | 0, _ => none
  | fuel + 1, params =>
      match search paramPattern params with
      | none => some []
      | some result =>
          match result.groups paramPattern with
          | [type, name] =>
              (paramLoop fuel result.after).map (⟨String.ofList type, String.ofList name⟩ :: ·)
          | _ => none

/-- There is no result where the function returns `false`. -/
def parseFuncDef (func : List Char) : Option Signature :=
  match search funcPattern func with
  | none => none
  | some result =>
      match result.groups funcPattern with
      | [type, name, params] =>
          (paramLoop (params.length + 1) params).map
            (⟨⟨String.ofList type, "result"⟩, String.ofList name, ·⟩)
      | _ => none

/-! ## What the searches find -/

/-- A type or a name. -/
def IsName (x : List Char) : Prop := x ≠ [] ∧ ∀ c ∈ x, c.isAlpha = true

/-- All the words of a function are alphabetic. -/
structure Signature.Alphabetic (sig : Signature) : Prop where
  type : IsName sig.returnArg.type.toList
  name : IsName sig.name.toList
  args : ∀ a ∈ sig.funcArgs, IsName a.type.toList ∧ IsName a.name.toList

/-- White space that keeps two words apart. -/
def IsGap (w : List Char) : Prop := w ≠ [] ∧ ∀ c ∈ w, isSpace c = true

theorem search_paramPattern {s : List Char} {m : Match Char} (h : search paramPattern s = some m) :
    ∃ type name, m.groups paramPattern = [type, name] ∧ IsName type ∧ IsName name ∧
      m.after.length < s.length := by
  obtain ⟨hs, hpieces⟩ := search_eq_some h
  obtain ⟨before, pieces, after⟩ := m
  dsimp only at hs hpieces
  simp only [paramPattern, List.forall₂_cons_left_iff, List.forall₂_nil_left_iff] at hpieces
  obtain ⟨type, -, ⟨htype, hne⟩, ⟨w, -, -, ⟨name, -, ⟨hname, hne'⟩, rfl, rfl⟩, rfl⟩, rfl⟩ :=
    hpieces
  refine ⟨type, name, rfl, ⟨hne, htype⟩, ⟨hne', hname⟩, ?_⟩
  have hpos := List.length_pos_iff.mpr hne
  rw [hs]
  simp only [List.flatten_cons, List.length_append]
  omega

/-- The loop ends. -/
theorem isSome_paramLoop {fuel : Nat} {params : List Char} (h : params.length < fuel) :
    (paramLoop fuel params).isSome := by
  induction fuel generalizing params with
  | zero => cases h
  | succ fuel ih =>
    unfold paramLoop
    split
    · rfl
    · rename_i m hm
      obtain ⟨type, name, hgroups, -, -, hafter⟩ := search_paramPattern hm
      rw [hgroups, Option.isSome_map]
      exact ih (by omega)

theorem isName_of_paramLoop {fuel : Nat} {params : List Char} {args : List Arg}
    (h : paramLoop fuel params = some args) :
    ∀ a ∈ args, IsName a.type.toList ∧ IsName a.name.toList := by
  induction fuel generalizing params args with
  | zero => cases h
  | succ fuel ih =>
    unfold paramLoop at h
    split at h
    · cases h
      exact nofun
    · rename_i m hm
      obtain ⟨type, name, hgroups, htype, hname, -⟩ := search_paramPattern hm
      rw [hgroups] at h
      obtain ⟨rest, hrest, rfl⟩ := Option.map_eq_some_iff.mp h
      refine List.forall_mem_cons.mpr ⟨?_, ih hrest⟩
      simpa only [String.toList_ofList] using And.intro htype hname

/-- What the first search finds. -/
theorem search_funcPattern {line : List Char} {m : Match Char}
    (h : search funcPattern line = some m) :
    ∃ w₁ type w₂ name w₃ params, m.groups funcPattern = [type, name, params] ∧
      IsName type ∧ IsGap w₂ ∧ IsName name ∧ (∀ c ∈ w₃, isSpace c = true) ∧
      (∀ c ∈ params, isDot c = true) ∧
      line = m.before ++ (w₁ ++ (type ++ (w₂ ++ (name ++ (w₃ ++
        '(' :: (params ++ ')' :: m.after)))))) := by
  obtain ⟨hline, hpieces⟩ := search_eq_some h
  obtain ⟨before, pieces, after⟩ := m
  dsimp only at hline hpieces
  simp only [funcPattern, List.forall₂_cons_left_iff, List.forall₂_nil_left_iff] at hpieces
  obtain ⟨w₁, -, -, ⟨type, -, ⟨htype, hne⟩, ⟨w₂, -, ⟨hw₂, hgap⟩, ⟨name, -, ⟨hname, hne'⟩,
    ⟨w₃, -, ⟨hw₃, -⟩, ⟨o, -, ⟨hopen, ho⟩, ⟨params, -, ⟨hparams, -⟩, ⟨e, -, ⟨hclose, he⟩,
    rfl, rfl⟩, rfl⟩, rfl⟩, rfl⟩, rfl⟩, rfl⟩, rfl⟩, rfl⟩ := hpieces
  obtain ⟨c, rfl⟩ := List.length_eq_one_iff.mp ho
  obtain rfl : c = '(' := by simpa using hopen
  obtain ⟨d, rfl⟩ := List.length_eq_one_iff.mp he
  obtain rfl : d = ')' := by simpa using hclose
  refine ⟨w₁, type, w₂, name, w₃, params, rfl, ⟨hne, htype⟩, ⟨hgap, hw₂⟩, ⟨hne', hname⟩, hw₃,
    hparams, ?_⟩
  simpa using hline

theorem parseFuncDef_of_search {line type name params : List Char} {m : Match Char}
    (h : search funcPattern line = some m) (hgroups : m.groups funcPattern = [type, name, params]) :
    parseFuncDef line = (paramLoop (params.length + 1) params).map
      (⟨⟨String.ofList type, "result"⟩, String.ofList name, ·⟩) := by
  rw [parseFuncDef, h]
  dsimp only
  rw [hgroups]

theorem alphabetic_of_parseFuncDef {line : List Char} {sig : Signature}
    (h : parseFuncDef line = some sig) : sig.Alphabetic ∧ sig.returnArg.name = "result" := by
  cases hsearch : search funcPattern line with
  | none =>
    rw [parseFuncDef, hsearch] at h
    cases h
  | some m =>
    obtain ⟨-, type, -, name, -, params, hgroups, htype, -, hname, -⟩ := search_funcPattern hsearch
    rw [parseFuncDef_of_search hsearch hgroups] at h
    obtain ⟨args, hargs, rfl⟩ := Option.map_eq_some_iff.mp h
    refine ⟨⟨?_, ?_, isName_of_paramLoop hargs⟩, rfl⟩
    · simpa only [String.toList_ofList] using htype
    · simpa only [String.toList_ofList] using hname

/-- Somewhere in the line there are two words and a pair of brackets. -/
def HasSignature (line : List Char) : Prop :=
  ∃ a type w₁ name w₂ params b, IsName type ∧ IsGap w₁ ∧ IsName name ∧
    (∀ c ∈ w₂, isSpace c = true) ∧ (∀ c ∈ params, isDot c = true) ∧
    line = a ++ (type ++ (w₁ ++ (name ++ (w₂ ++ '(' :: (params ++ ')' :: b)))))

/-- The lines for which `parse_func_def` returns `true`. -/
theorem isSome_parseFuncDef_iff {line : List Char} :
    (parseFuncDef line).isSome ↔ HasSignature line := by
  constructor
  · intro h
    cases hsearch : search funcPattern line with
    | none =>
      rw [parseFuncDef, hsearch] at h
      cases h
    | some m =>
      obtain ⟨w₁, type, w₂, name, w₃, params, -, htype, hw₂, hname, hw₃, hparams, hline⟩ :=
        search_funcPattern hsearch
      refine ⟨m.before ++ w₁, type, w₂, name, w₃, params, m.after, htype, hw₂, hname, hw₃,
        hparams, ?_⟩
      rw [hline, List.append_assoc]
  · rintro ⟨a, type, w₁, name, w₂, params, b, htype, hw₁, hname, hw₂, hparams, rfl⟩
    have hfit : List.Forall₂ Item.Accepts funcPattern
        [[], type, w₁, name, w₂, ['('], params, [')']] :=
      .cons ⟨nofun, trivial⟩ <| .cons ⟨htype.2, htype.1⟩ <| .cons ⟨hw₁.2, hw₁.1⟩ <|
      .cons ⟨hname.2, hname.1⟩ <| .cons ⟨hw₂, trivial⟩ <| .cons ⟨by simp, rfl⟩ <|
      .cons ⟨hparams, trivial⟩ <| .cons ⟨by simp, rfl⟩ .nil
    obtain ⟨m, hsearch⟩ := Option.isSome_iff_exists.mp (isSome_search hfit a b)
    simp only [List.flatten_cons, List.flatten_nil, List.nil_append, List.append_nil,
      List.append_assoc, List.cons_append] at hsearch
    obtain ⟨-, type', -, name', -, params', hgroups, -⟩ := search_funcPattern hsearch
    rw [parseFuncDef_of_search hsearch hgroups, Option.isSome_map]
    exact isSome_paramLoop (Nat.lt_succ_self _)

end CppRpc
