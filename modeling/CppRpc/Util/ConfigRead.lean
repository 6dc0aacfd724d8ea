import Mathlib.Logic.Function.Basic
import CppRpc.Lib.CText
import CppRpc.Lib.Regex

/-!
# `RPC_util/config_read.cc`

`Config` reads the lines of a file one by one and keeps what its pattern finds
in a line.  The pattern spells out a whole line, with white space on both sides,
and `regex_search` looks for it anywhere in the line.

`IsSetting` is a line of the form `k = v`, and `ReadsExactly` the property of a
file: the last such line with a key decides its value, and no other line counts.
`search_isSome_iff` says in which lines the search finds something,
`search_of_isSetting` that a line of the form is read as it stands, and
`readsExactly_iff` is the exact condition.
-/

namespace CppRpc

open CText Regex

/-! ## The code -/

/-- `[a-zA-Z0-9_]`. -/
def isKeyChar (c : Char) : Bool := c.isAlphanum || c == '_'

/-- `[a-zA-Z0-9_\.]`, where the compiler drops the backslash. -/
def isValueChar (c : Char) : Bool := isKeyChar c || c == '.'

/-- The pattern of `read_file`. -/
def settingPattern : Pattern Char :=
  [⟨isSpace, .star, false⟩, ⟨isKeyChar, .plus, true⟩, ⟨isSpace, .star, false⟩,
    ⟨(· == '='), .once, false⟩, ⟨isSpace, .star, false⟩, ⟨isValueChar, .plus, true⟩,
    ⟨isSpace, .star, false⟩]

/-- `Config`: `m_keys`. -/
structure Config where
  keys : List Char → Option (List Char)

namespace Config

def value (c : Config) (key : List Char) : List Char := (c.keys key).getD []

/-- The loop of `read_file`. -/
def readLines (c : Config) : List (List Char) → Config
  | [] => c
  | config :: lines =>
      if config = [] then c.readLines lines
      else
        match search settingPattern config with
        | none => c.readLines lines
        | some result =>
            match result.groups settingPattern with
            | [key, value] =>
                readLines ⟨Function.update c.keys key (some value)⟩ lines
            | _ => c

/-- The lines that `getline` takes off a file, or none if it cannot be opened. -/
def fileLines (file : Option (List Char)) : List (List Char) :=
  (file.map (List.splitOn '\n')).getD []

/-- The constructor. -/
def readFile (file : Option (List Char)) : Config := readLines ⟨fun _ => none⟩ (fileLines file)

end Config

/-! ## What a line says -/

/-- The line as a whole has the form `k = v`. -/
def IsSetting (line k v : List Char) : Prop :=
  (k ≠ [] ∧ ∀ c ∈ k, isKeyChar c = true) ∧ (v ≠ [] ∧ ∀ c ∈ v, isValueChar c = true) ∧
    ∃ w₁ w₂ w₃ w₄ : List Char, (∀ w ∈ [w₁, w₂, w₃, w₄], ∀ c ∈ w, isSpace c = true) ∧
      line = w₁ ++ (k ++ (w₂ ++ ('=' :: (w₃ ++ (v ++ w₄)))))

/-- Somewhere in the line there is an equals sign that has a character of a key
in front of it and a character of a value behind it, up to white space. -/
def HasSetting (line : List Char) : Prop :=
  ∃ (a : List Char) (c : Char) (w₁ w₂ : List Char) (d : Char) (b : List Char),
    isKeyChar c = true ∧ isValueChar d = true ∧
    (∀ w ∈ [w₁, w₂], ∀ c ∈ w, isSpace c = true) ∧
    line = a ++ c :: (w₁ ++ '=' :: (w₂ ++ d :: b))

theorem isSpace_of_isValueChar {c : Char} (h : isValueChar c = true) : isSpace c = false := by
  simp only [isValueChar, isKeyChar, Bool.or_eq_true, beq_iff_eq] at h
  rcases h with (hc | rfl) | rfl
  · exact isSpace_of_isAlphanum hc
  · rfl
  · rfl

theorem isValueChar_of_isKeyChar {c : Char} (h : isKeyChar c = true) : isValueChar c = true := by
  rw [isValueChar, h, Bool.true_or]

theorem isValueChar_of_isSpace {c : Char} (h : isSpace c = true) : isValueChar c = false :=
  eq_false_of_apart (p := isValueChar) (fun _ => isSpace_of_isValueChar) h

theorem isKeyChar_of_isSpace {c : Char} (h : isSpace c = true) : isKeyChar c = false :=
  eq_false_of_apart (p := isKeyChar)
    (fun _ hkey => isSpace_of_isValueChar (isValueChar_of_isKeyChar hkey)) h

/-- A line of the form is read as it stands. -/
theorem search_of_isSetting {line k v : List Char} (h : IsSetting line k v) :
    ∃ m, search settingPattern line = some m ∧ m.groups settingPattern = [k, v] := by
  obtain ⟨⟨hk, hkey⟩, ⟨hv, hvalue⟩, w₁, w₂, w₃, w₄, hspace, rfl⟩ := h
  simp only [List.forall_mem_cons] at hspace
  obtain ⟨h₁, h₂, h₃, h₄, -⟩ := hspace
  have hend : (ways [⟨isSpace, .star, false⟩] (w₄ ++ [])).head? = some ([w₄], []) := by
    refine head?_ways_cons ⟨h₄, trivial⟩ (Or.inr stops_nil) ?_
    rfl
  rw [List.append_nil] at hend
  have hall : (ways settingPattern (w₁ ++ (k ++ (w₂ ++ ('=' :: (w₃ ++ (v ++ w₄))))))).head? =
      some ([w₁, k, w₂, ['='], w₃, v, w₄], []) := by
    unfold settingPattern
    refine head?_ways_cons ⟨h₁, trivial⟩ (Or.inr ?_) ?_
    · exact stops_append_of_ne_nil
        (fun c hc => isSpace_of_isValueChar (isValueChar_of_isKeyChar (hkey c hc))) hk
    refine head?_ways_cons ⟨hkey, hk⟩ (Or.inr ?_) ?_
    · exact stops_append (fun c hc => isKeyChar_of_isSpace (h₂ c hc)) (stops_cons rfl)
    refine head?_ways_cons ⟨h₂, trivial⟩ (Or.inr (stops_cons rfl)) ?_
    refine head?_ways_cons (x := ['=']) ⟨by simp, rfl⟩ (Or.inl rfl) ?_
    refine head?_ways_cons ⟨h₃, trivial⟩ (Or.inr ?_) ?_
    · exact stops_append_of_ne_nil (fun c hc => isSpace_of_isValueChar (hvalue c hc)) hv
    refine head?_ways_cons ⟨hvalue, hv⟩ (Or.inr ?_) hend
    cases w₄ with
    | nil => exact stops_nil
    | cons c w => exact stops_cons (isValueChar_of_isSpace (h₄ c (List.mem_cons_self ..)))
  exact ⟨_, search_of_head? hall, rfl⟩

/-- What the search finds in a line. -/
theorem exists_of_search {line : List Char} {m : Match Char}
    (h : search settingPattern line = some m) :
    ∃ w₁ k w₂ w₃ v w₄ : List Char, m.groups settingPattern = [k, v] ∧
      (k ≠ [] ∧ ∀ c ∈ k, isKeyChar c = true) ∧ (v ≠ [] ∧ ∀ c ∈ v, isValueChar c = true) ∧
      (∀ w ∈ [w₁, w₂, w₃, w₄], ∀ c ∈ w, isSpace c = true) ∧
      line = m.before ++ (w₁ ++ (k ++ (w₂ ++ '=' :: (w₃ ++ (v ++ (w₄ ++ m.after)))))) := by
  obtain ⟨hline, hpieces⟩ := search_eq_some h
  obtain ⟨before, pieces, after⟩ := m
  dsimp only at hline hpieces
  simp only [settingPattern, List.forall₂_cons_left_iff, List.forall₂_nil_left_iff] at hpieces
  obtain ⟨w₁, -, ⟨h₁, -⟩, ⟨k, -, ⟨hkey, hk⟩, ⟨w₂, -, ⟨h₂, -⟩, ⟨e, -, ⟨heq, he⟩, ⟨w₃, -, ⟨h₃, -⟩,
    ⟨v, -, ⟨hvalue, hv⟩, ⟨w₄, -, ⟨h₄, -⟩, rfl, rfl⟩, rfl⟩, rfl⟩, rfl⟩, rfl⟩, rfl⟩, rfl⟩ := hpieces
  obtain ⟨c, rfl⟩ := List.length_eq_one_iff.mp he
  obtain rfl : c = '=' := by simpa using heq
  refine ⟨w₁, k, w₂, w₃, v, w₄, rfl, ⟨hk, hkey⟩, ⟨hv, hvalue⟩, ?_, ?_⟩
  · simp only [List.forall_mem_cons]
    exact ⟨h₁, h₂, h₃, h₄, nofun⟩
  · simpa using hline

/-- The lines in which the search finds something. -/
theorem search_isSome_iff {line : List Char} :
    (search settingPattern line).isSome ↔ HasSetting line := by
  constructor
  · intro h
    obtain ⟨m, hm⟩ := Option.isSome_iff_exists.mp h
    obtain ⟨w₁, k, w₂, w₃, v, w₄, -, ⟨hk, hkey⟩, ⟨hv, hvalue⟩, hspace, hline⟩ :=
      exists_of_search hm
    simp only [List.forall_mem_cons] at hspace
    -- the last character of the key, and the first one of the value
    obtain ⟨k, c, rfl⟩ := (List.eq_nil_or_concat k).resolve_left hk
    obtain ⟨d, v, rfl⟩ := List.exists_cons_of_ne_nil hv
    refine ⟨m.before ++ (w₁ ++ k), c, w₂, w₃, d, v ++ (w₄ ++ m.after), ?_, ?_, ?_, ?_⟩
    · exact hkey c (by simp)
    · exact hvalue d (by simp)
    · simp only [List.forall_mem_cons]
      exact ⟨hspace.2.1, hspace.2.2.1, nofun⟩
    · rw [hline]
      simp
  · rintro ⟨a, c, w₁, w₂, d, b, hc, hd, hspace, rfl⟩
    simp only [List.forall_mem_cons] at hspace
    have hfit : List.Forall₂ Item.Accepts settingPattern [[], [c], w₁, ['='], w₂, [d], []] :=
      .cons ⟨nofun, trivial⟩ <| .cons ⟨by simpa using hc, List.cons_ne_nil _ _⟩ <|
      .cons ⟨hspace.1, trivial⟩ <| .cons ⟨by simp, rfl⟩ <| .cons ⟨hspace.2.1, trivial⟩ <|
      .cons ⟨by simpa using hd, List.cons_ne_nil _ _⟩ <| .cons ⟨nofun, trivial⟩ .nil
    have hsome := isSome_search hfit a b
    simpa using hsome

/-! ## What a file says -/

namespace Config

/-- The last line of the form with this key gives this value. -/
def IsLast (lines : List (List Char)) (k v : List Char) : Prop :=
  ∃ before line after, lines = before ++ line :: after ∧ IsSetting line k v ∧
    ∀ l ∈ after, ∀ v', ¬ IsSetting l k v'

/-- The property of a file. -/
structure ReadsExactly (file : Option (List Char)) : Prop where
  last : ∀ k v, IsLast (fileLines file) k v → (readFile file).value k = v
  missing : ∀ k, (∀ line ∈ fileLines file, ∀ v, ¬ IsSetting line k v) →
    (readFile file).value k = []
  others : ∀ line ∈ fileLines file, (∀ k v, ¬ IsSetting line k v) →
    ∀ (c : Config) lines, c.readLines (line :: lines) = c.readLines lines

/-- The condition on a line: it has the form, or nothing in it looks like it. -/
def WholeOrNone (line : List Char) : Prop := HasSetting line → ∃ k v, IsSetting line k v

variable {line k v : List Char} {lines : List (List Char)}

theorem readLines_of_none (h : search settingPattern line = none) (c : Config)
    (lines : List (List Char)) : c.readLines (line :: lines) = c.readLines lines := by
  rw [readLines, h]
  split <;> rfl

theorem readLines_of_some {m : Match Char} (h : search settingPattern line = some m)
    (hm : m.groups settingPattern = [k, v]) (c : Config) (lines : List (List Char)) :
    c.readLines (line :: lines) = readLines ⟨Function.update c.keys k (some v)⟩ lines := by
  rw [readLines, if_neg]
  · simp only [h, hm]
  · rintro rfl
    cases h

/-- A line that meets the condition counts exactly if it has the form. -/
theorem readLines_cons (hline : WholeOrNone line) :
    ((∀ k v, ¬ IsSetting line k v) ∧
        ∀ (c : Config) lines, c.readLines (line :: lines) = c.readLines lines) ∨
      ∃ k v, IsSetting line k v ∧ ∀ (c : Config) lines,
        c.readLines (line :: lines) = readLines ⟨Function.update c.keys k (some v)⟩ lines := by
  by_cases hset : ∃ k v, IsSetting line k v
  · right
    obtain ⟨k, v, hkv⟩ := hset
    obtain ⟨m, hm, hgroups⟩ := search_of_isSetting hkv
    exact ⟨k, v, hkv, readLines_of_some hm hgroups⟩
  · left
    refine ⟨fun k v hkv => hset ⟨k, v, hkv⟩, ?_⟩
    apply readLines_of_none
    rw [← Option.isNone_iff_eq_none, ← Option.isSome_eq_false_iff, ← Bool.not_eq_true,
      search_isSome_iff]
    exact fun hhas => hset (hline hhas)

/-- Lines without the key leave its value alone. -/
theorem keys_readLines (hlines : ∀ line ∈ lines, WholeOrNone line)
    (hk : ∀ line ∈ lines, ∀ v, ¬ IsSetting line k v) (c : Config) :
    (c.readLines lines).keys k = c.keys k := by
  induction lines generalizing c with
  | nil => rfl
  | cons line lines ih =>
    obtain ⟨hline, hlines⟩ := List.forall_mem_cons.mp hlines
    obtain ⟨hkline, hk⟩ := List.forall_mem_cons.mp hk
    rcases readLines_cons hline with ⟨-, hskip⟩ | ⟨k', v', hset, hread⟩
    · rw [hskip, ih hlines hk]
    · have hne : k ≠ k' := fun heq => hkline v' (heq ▸ hset)
      rw [hread, ih hlines hk]
      exact Function.update_of_ne hne ..

/-- The last line with the key decides. -/
theorem keys_readLines_of_isLast (hlines : ∀ line ∈ lines, WholeOrNone line)
    (h : IsLast lines k v) (c : Config) : (c.readLines lines).keys k = some v := by
  obtain ⟨before, line, after, rfl, hset, hafter⟩ := h
  induction before generalizing c with
  | nil =>
    obtain ⟨m, hm, hgroups⟩ := search_of_isSetting hset
    rw [List.nil_append, readLines_of_some hm hgroups,
      keys_readLines (fun l hl => hlines l (List.mem_cons_of_mem line hl)) hafter]
    exact Function.update_self ..
  | cons l before ih =>
    obtain ⟨hl, hlines⟩ := List.forall_mem_cons.mp hlines
    rw [List.cons_append]
    rcases readLines_cons hl with ⟨-, hskip⟩ | ⟨k', v', -, hread⟩
    · rw [hskip]
      exact ih c hlines
    · rw [hread]
      exact ih _ hlines

/-- For every file: it is read exactly if and only if every line has the form as
a whole, or has nothing in it that the search would find. -/
theorem readsExactly_iff (file : Option (List Char)) :
    ReadsExactly file ↔ ∀ line ∈ fileLines file, WholeOrNone line := by
  constructor
  · intro h line hmem hhas
    by_contra hnone
    simp only [not_exists] at hnone
    obtain ⟨m, hm⟩ := Option.isSome_iff_exists.mp (search_isSome_iff.mpr hhas)
    obtain ⟨-, k, -, -, v, -, hgroups, -⟩ := exists_of_search hm
    -- a search that finds something makes an entry
    have hskip := h.others line hmem hnone ⟨fun _ => none⟩ []
    rw [readLines_of_some hm hgroups] at hskip
    have hentry := congrFun (congrArg Config.keys hskip) k
    simp only [readLines, Function.update_self] at hentry
    cases hentry
  · intro hlines
    refine ⟨fun k v h => ?_, fun k h => ?_, fun line hmem hnone => ?_⟩
    · rw [value, readFile, keys_readLines_of_isLast hlines h, Option.getD_some]
    · rw [value, readFile, keys_readLines hlines h, Option.getD_none]
    · rcases readLines_cons (hlines line hmem) with ⟨-, hskip⟩ | ⟨k, v, hset, -⟩
      · exact hskip
      · exact absurd hset (hnone k v)

/-- A setting that has been commented out. -/
theorem comment_is_read : ¬ ReadsExactly (some "#port=99".toList) := by
  intro h
  have hvalue : (readFile (some "#port=99".toList)).value "port".toList = "99".toList := by decide
  have hlines : fileLines (some "#port=99".toList) = ["#port=99".toList] := by decide
  have hnone : ∀ line ∈ fileLines (some "#port=99".toList), ∀ v,
      ¬ IsSetting line "port".toList v := by
    rw [hlines, List.forall_mem_singleton]
    rintro v ⟨_, _, w₁, _, _, _, hspace, heq⟩
    cases w₁ with
    | nil => cases heq
    | cons c w₁ =>
      obtain ⟨rfl, -⟩ := List.cons.inj heq
      have hc := hspace _ (List.mem_cons_self ..) _ (List.mem_cons_self ..)
      cases hc
  rw [h.missing _ hnone] at hvalue
  cases hvalue

end Config

end CppRpc
