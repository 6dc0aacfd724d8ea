import CppRpc.CodeGen.Generate
import CppRpc.CodeGen.Printed

/-!
# Definition files

A definition file has the name of a head file in its first line, and behind it
one function in a line, with empty lines between them.  `definitions_text` says
that `main` reads such a file as it stands, however the functions are spaced, and
`definitions_eq_none_iff` when it gives up: at a line in which there is no
function anywhere.

`Signature.prototype` is the line that `write_client_cc` begins a stub with.
`definitions_prototypes` is the result: a file that `main` accepts, in whatever
shape, and the prototypes of its stubs as a definition file, give the same
functions.
-/

namespace CppRpc

open CText Regex Tokens

/-! ## What is accepted -/

theorem readDefs_eq_none_iff (lines : List (List Char)) :
    readDefs lines = none ↔ ∃ line ∈ lines, line ≠ [] ∧ ¬ HasSignature line := by
  induction lines with
  | nil => simp [readDefs]
  | cons line lines ih =>
    rw [readDefs, List.exists_mem_cons_iff]
    split
    · rename_i hline
      rw [ih]
      simp [hline]
    · rename_i hline
      rw [← isSome_parseFuncDef_iff]
      cases parseFuncDef line with
      | none => simp [hline]
      | some sig => simp [ih]

/-- `main` gives up exactly if there is a line behind the first one that is not
empty, and has no function anywhere. -/
theorem definitions_eq_none_iff (file : List Char) :
    definitions file = none ↔
      ∃ line ∈ (file.splitOn '\n').tail, line ≠ [] ∧ ¬ HasSignature line := by
  rw [definitions, Option.map_eq_none_iff, readDefs_eq_none_iff]

/-! ## A file as it stands -/

/-- A file with the given head file.  Where there is no function, the line is
empty. -/
def definitionText (headFile : List Char) (lines : List (Option PrintedFunc)) : List Char :=
  ['\n'].intercalate (headFile :: lines.map fun line => (line.map PrintedFunc.line).getD [])

/-- A function is on one line. -/
theorem PrintedFunc.newline_notMem (f : PrintedFunc) : '\n' ∉ f.line := by
  have hblank : ∀ w : Blank, '\n' ∉ w.chars := by
    intro w hmem
    rcases w.blank _ hmem with h | h <;> cases h
  have hword : ∀ x : Word, '\n' ∉ x.chars := by
    intro x hmem
    have halpha := x.isName.2 _ hmem
    cases halpha
  have hparams : '\n' ∉ f.paramsText := by
    intro hmem
    have hdot := f.isDot_paramsText _ hmem
    cases hdot
  simp only [PrintedFunc.line, List.mem_append, List.mem_cons, not_or]
  exact ⟨hblank _, hword _, hblank _, hword _, hblank _, by decide, hparams, by decide, hblank _⟩

theorem readDefs_printed (lines : List (Option PrintedFunc)) :
    readDefs (lines.map fun line => (line.map PrintedFunc.line).getD []) =
      some (lines.reduceOption.map PrintedFunc.signature) := by
  induction lines with
  | nil => rfl
  | cons line lines ih =>
    cases line with
    | none => exact ih
    | some f =>
      have hne : f.line ≠ [] := by
        simp [PrintedFunc.line]
      have hparse : parseFuncDef f.line = some f.signature :=
        parseFuncDef_of_spells f.alphabetic_signature rfl (Or.inl rfl) f.spells_line
          f.hasSignature_line
      rw [List.map_cons, Option.map_some, Option.getD_some, readDefs, if_neg hne, hparse]
      dsimp only
      rw [ih]
      rfl

theorem splitOn_definitionText {headFile : List Char} (h : '\n' ∉ headFile)
    (lines : List (Option PrintedFunc)) :
    (definitionText headFile lines).splitOn '\n' =
      headFile :: lines.map fun line => (line.map PrintedFunc.line).getD [] := by
  have hlines : ∀ line ∈ headFile :: lines.map fun line => (line.map PrintedFunc.line).getD [],
      '\n' ∉ line := by
    intro line hline
    rcases List.mem_cons.mp hline with rfl | hline
    · exact h
    · obtain ⟨f, -, rfl⟩ := List.mem_map.mp hline
      cases f with
      | none => exact List.not_mem_nil
      | some f => exact f.newline_notMem
  exact List.splitOn_intercalate '\n' hlines (List.cons_ne_nil _ _)

/-- For every head file, every functions and every spaces, tabs and empty lines:
`main` reads the head file and the functions. -/
theorem definitions_text {headFile : List Char} (h : '\n' ∉ headFile)
    (lines : List (Option PrintedFunc)) :
    definitions (definitionText headFile lines) =
      some (String.ofList headFile, lines.reduceOption.map PrintedFunc.signature) := by
  rw [definitions, splitOn_definitionText h, List.tail_cons, readDefs_printed]
  rfl

/-- A tab, a function without parameters, and an empty line. -/
theorem definitions_text_echo :
    definitions (definitionText "add.h".toList [none, some
        ⟨⟨['\t'], by simp⟩, ⟨['s', 't', 'r', 'i', 'n', 'g'], by simp [IsName]⟩,
          ⟨⟨[' ', ' '], by simp⟩, by simp⟩, ⟨['e', 'c', 'h', 'o'], by simp [IsName]⟩, ⟨[], by simp⟩,
          [], ⟨[' '], by simp⟩, ⟨[], by simp⟩⟩, none]) =
      some ("add.h", [⟨⟨"string", "result"⟩, "echo", []⟩]) := by
  rw [definitions_text (by decide)]
  rfl

/-! ## The prototypes of the stubs -/

/-- The first line of a stub. -/
def Signature.prototype (sig : Signature) : String :=
  sig.returnArg.type ++ " " ++ sig.name ++ "(" ++
    ", ".intercalate (sig.funcArgs.map fun a => a.type ++ " " ++ a.name) ++ ")"

theorem stubText_eq (sig : Signature) :
    sig.stubText =
      sig.prototype ++ "\n\x7b\n" ++ (sig.invocation "RPC_CLIENT").text ++ "\x7d\n\n" := by
  simp only [Signature.stubText, Signature.prototype, String.append_assoc]
  rfl

/-- The prototypes as a definition file. -/
def prototypesText (headFile : String) (sigs : List Signature) : List Char :=
  ['\n'].intercalate (headFile.toList :: sigs.map fun sig => sig.prototype.toList)

/-- A space, or nothing. -/
def noBlank : Blank := ⟨[], by simp⟩

def oneSpace : Separator := ⟨⟨[' '], by simp⟩, List.cons_ne_nil _ _⟩

/-- A parameter as it stands in a prototype. -/
theorem exists_printedParams {args : List Arg}
    (h : ∀ a ∈ args, IsName a.type.toList ∧ IsName a.name.toList) :
    ∃ ps : List PrintedParam, ps.map PrintedParam.arg = args ∧
      (ps.flatMap fun p => ',' :: p.text) =
        args.flatMap fun a => ", ".toList ++ (a.type ++ " " ++ a.name).toList := by
  induction args with
  | nil => exact ⟨[], rfl, rfl⟩
  | cons a args ih =>
    obtain ⟨⟨htype, hname⟩, hargs⟩ := List.forall_mem_cons.mp h
    obtain ⟨ps, harg, htext⟩ := ih hargs
    refine ⟨⟨oneSpace.toBlank, ⟨_, htype⟩, oneSpace, ⟨_, hname⟩, noBlank⟩ :: ps, ?_, ?_⟩
    · rw [List.map_cons, harg, PrintedParam.arg, String.ofList_toList, String.ofList_toList]
    · rw [List.flatMap_cons, List.flatMap_cons, htext]
      simp [PrintedParam.text, oneSpace, noBlank]

theorem intercalate_cons {α : Type} (sep x : List α) (xs : List (List α)) :
    sep.intercalate (x :: xs) = x ++ xs.flatMap fun y => sep ++ y := by
  induction xs generalizing x with
  | nil => simp
  | cons y xs ih => rw [List.intercalate_cons_cons, ih, List.flatMap_cons, List.append_assoc,
      List.append_assoc]

/-- A prototype is a printed function. -/
theorem exists_printedFunc {sig : Signature} (h : sig.Alphabetic)
    (hresult : sig.returnArg.name = "result") :
    ∃ f : PrintedFunc, f.line = sig.prototype.toList ∧ f.signature = sig := by
  obtain ⟨⟨returnType, returnName⟩, name, funcArgs⟩ := sig
  obtain rfl : returnName = "result" := hresult
  have htype : IsName returnType.toList := h.type
  have hname : IsName name.toList := h.name
  cases funcArgs with
  | nil =>
    refine ⟨⟨noBlank, ⟨_, htype⟩, oneSpace, ⟨_, hname⟩, noBlank, [], noBlank, noBlank⟩, ?_, ?_⟩
    · simp [PrintedFunc.line, PrintedFunc.paramsText, Signature.prototype, oneSpace, noBlank]
    · simp [PrintedFunc.signature]
  | cons a args =>
    obtain ⟨⟨hatype, haname⟩, hargs⟩ := List.forall_mem_cons.mp h.args
    obtain ⟨ps, harg, htext⟩ := exists_printedParams hargs
    let p : PrintedParam := ⟨noBlank, ⟨_, hatype⟩, oneSpace, ⟨_, haname⟩, noBlank⟩
    have hp : p.text = (a.type ++ " " ++ a.name).toList := by
      simp [p, PrintedParam.text, oneSpace, noBlank]
    refine ⟨⟨noBlank, ⟨_, htype⟩, oneSpace, ⟨_, hname⟩, noBlank, p :: ps, noBlank, noBlank⟩, ?_, ?_⟩
    · rw [PrintedFunc.line, PrintedFunc.paramsText]
      dsimp only
      rw [htext, hp]
      simp [Signature.prototype, oneSpace, noBlank, intercalate_cons, List.flatMap_map]
    · simp [p, PrintedFunc.signature, harg, PrintedParam.arg]

/-- Nothing before the first newline is one. -/
theorem notMem_headD_splitOn (file : List Char) : '\n' ∉ (file.splitOn '\n').headD [] := by
  by_cases hmem : '\n' ∈ file
  · obtain ⟨as, bs, rfl, has⟩ := List.eq_append_cons_of_mem hmem
    rw [List.splitOn_append_cons_self_of_not_mem has]
    exact has
  · rw [List.splitOn_eq_singleton hmem]
    exact hmem

/-- The prototypes of what is read are printed functions. -/
theorem exists_printed_of_readDefs {lines : List (List Char)} {sigs : List Signature}
    (h : readDefs lines = some sigs) :
    ∃ fs : List PrintedFunc, fs.map PrintedFunc.line =
      sigs.map (fun sig => sig.prototype.toList) ∧ fs.map PrintedFunc.signature = sigs := by
  induction lines generalizing sigs with
  | nil =>
    cases h
    exact ⟨[], rfl, rfl⟩
  | cons func lines ih =>
    unfold readDefs at h
    split at h
    · exact ih h
    · split at h
      · cases h
      · rename_i sig hsig
        obtain ⟨rest, hrest, rfl⟩ := Option.map_eq_some_iff.mp h
        obtain ⟨halpha, hresult⟩ := alphabetic_of_parseFuncDef hsig
        obtain ⟨f, hline, hf⟩ := exists_printedFunc halpha hresult
        obtain ⟨fs, hlines, hfs⟩ := ih hrest
        exact ⟨f :: fs, by rw [List.map_cons, List.map_cons, hline, hlines],
          by rw [List.map_cons, hf, hfs]⟩

/-- For every definition file that `main` accepts: the prototypes of the stubs
that it writes are a definition file with the same functions. -/
theorem definitions_prototypes {file : List Char} {headFile : String} {sigs : List Signature}
    (h : definitions file = some (headFile, sigs)) :
    definitions (prototypesText headFile sigs) = some (headFile, sigs) := by
  obtain ⟨sigs', hread, heq⟩ := Option.map_eq_some_iff.mp h
  obtain ⟨rfl, rfl⟩ := Prod.mk.inj heq
  have hhead := notMem_headD_splitOn file
  generalize (file.splitOn '\n').headD [] = headLine at hhead ⊢
  obtain ⟨fs, hlines, hsigs⟩ := exists_printed_of_readDefs hread
  have hfs : (fs.map some).reduceOption = fs := by
    show (fs.map some).filterMap id = fs
    rw [List.filterMap_map]
    exact List.filterMap_some
  have hfile : prototypesText (String.ofList headLine) sigs' =
      definitionText headLine (fs.map some) := by
    rw [prototypesText, definitionText, String.toList_ofList, List.map_map, ← hlines]
    rfl
  rw [hfile, definitions, splitOn_definitionText hhead, List.tail_cons, readDefs_printed, hfs,
    hsigs]
  rfl

/-- A file with a semicolon and without spaces. -/
theorem definitions_prototypes_add :
    prototypesText "add.h" [⟨⟨"int", "result"⟩, "add", [⟨"int", "a"⟩, ⟨"int", "b"⟩]⟩] =
        "add.h\nint add(int a, int b)".toList ∧
      definitions (prototypesText "add.h"
          [⟨⟨"int", "result"⟩, "add", [⟨"int", "a"⟩, ⟨"int", "b"⟩]⟩]) =
        some ("add.h", [⟨⟨"int", "result"⟩, "add", [⟨"int", "a"⟩, ⟨"int", "b"⟩]⟩]) := by
  have hdefs : definitions "add.h\n\nint add(int a,int b);\n".toList =
      some ("add.h", [⟨⟨"int", "result"⟩, "add", [⟨"int", "a"⟩, ⟨"int", "b"⟩]⟩]) := rfl
  exact ⟨rfl, definitions_prototypes hdefs⟩

end CppRpc
