import CppRpc.Lib.Regex

/-!
# Tokens

A `Lexicon` says which characters are white space and which ones make words.
`tokens` cuts a text into its words, each as long as it can be, and the other
characters, each on its own; white space is dropped.

`Spells` says the same as a relation between tokens and texts.  A proof about a
reader starts from the tokens of its text (`spells_tokens`) and takes the text
apart along them: `Spells.word_inv` at a word in front, and `Spells.mark_inv` at
any place where a single character stands.
-/

namespace CppRpc.Tokens

open Regex

structure Lexicon (α : Type) where
  space : α → Bool
  word : α → Bool
  apart : ∀ c, word c = true → space c = false

variable {α : Type} (L : Lexicon α)

def tokens : List α → List (List α)
  | [] => []
  | c :: s =>
      if L.space c then tokens s
      else if L.word c && s.head?.any L.word then (tokens s).modifyHead (c :: ·)
      else [c] :: tokens s

/-- The text consists of these tokens, and of white space between them. -/
inductive Spells : List (List α) → List α → Prop
  | nil : Spells [] []
  | space {c : α} {toks : List (List α)} {s : List α} (hc : L.space c = true)
      (h : Spells toks s) : Spells toks (c :: s)
  | word {x : List α} {toks : List (List α)} {s : List α} (hne : x ≠ [])
      (hx : ∀ c ∈ x, L.word c = true) (hs : Stops L.word s) (h : Spells toks s) :
      Spells (x :: toks) (x ++ s)
  | mark {c : α} {toks : List (List α)} {s : List α} (hword : L.word c = false)
      (hspace : L.space c = false) (h : Spells toks s) : Spells ([c] :: toks) (c :: s)

variable {L} {toks : List (List α)} {s : List α}

/-- A word goes on. -/
theorem Spells.modifyHead (h : Spells L toks s) {c : α} (hc : L.word c = true)
    (hs : s.head?.any L.word = true) : Spells L (toks.modifyHead (c :: ·)) (c :: s) := by
  cases h with
  | nil => cases hs
  | space hspace h =>
    have hword : L.space _ = false := L.apart _ hs
    rw [hspace] at hword
    cases hword
  | word hne hx hstop h =>
    exact .word (List.cons_ne_nil _ _) (List.forall_mem_cons.mpr ⟨hc, hx⟩) hstop h
  | mark hword =>
    rw [List.head?_cons, Option.any_some, hword] at hs
    cases hs

theorem spells_tokens (L : Lexicon α) (s : List α) : Spells L (tokens L s) s := by
  induction s with
  | nil => exact .nil
  | cons c s ih =>
    unfold tokens
    split
    · rename_i hspace
      exact .space hspace ih
    · rename_i hspace
      split
      · rename_i hword
        rw [Bool.and_eq_true] at hword
        exact ih.modifyHead hword.1 hword.2
      · rename_i hword
        cases hc : L.word c with
        | true =>
          -- a word that ends here
          have hstop : Stops L.word s := by
            intro d hd
            rw [hc, Bool.true_and, Option.mem_def.mp hd, Option.any_some] at hword
            exact eq_false_of_ne_true hword
          exact .word (x := [c]) (List.cons_ne_nil c []) (by simpa using hc) hstop ih
        | false => exact .mark hc (eq_false_of_ne_true hspace) ih

theorem Spells.nil_inv (h : Spells L [] s) : ∀ c ∈ s, L.space c = true := by
  generalize htoks : ([] : List (List α)) = toks at h
  induction h with
  | nil => nofun
  | space hc _ ih => exact List.forall_mem_cons.mpr ⟨hc, ih htoks⟩
  | word => cases htoks
  | mark => cases htoks

/-- A text whose first token is a word. -/
theorem Spells.word_inv {x : List α} (h : Spells L (x :: toks) s) (hne : x ≠ [])
    (hx : ∀ c ∈ x, L.word c = true) :
    ∃ w s', s = w ++ (x ++ s') ∧ (∀ c ∈ w, L.space c = true) ∧ Stops L.word s' ∧
      Spells L toks s' := by
  generalize htoks : x :: toks = toks' at h
  induction h with
  | nil => cases htoks
  | space hc _ ih =>
    obtain ⟨w, s', rfl, hw, hs', h'⟩ := ih htoks
    exact ⟨_ :: w, s', rfl, List.forall_mem_cons.mpr ⟨hc, hw⟩, hs', h'⟩
  | word _ _ hs h =>
    cases htoks
    exact ⟨[], _, rfl, nofun, hs, h⟩
  | mark hword =>
    cases htoks
    rw [hx _ (List.mem_singleton_self _)] at hword
    cases hword

/-- A text with a token that is no word. -/
theorem Spells.mark_inv {c : α} {t₁ t₂ : List (List α)} (h : Spells L (t₁ ++ [c] :: t₂) s)
    (hc : L.word c = false) :
    ∃ s₁ s₂, s = s₁ ++ c :: s₂ ∧ Spells L t₁ s₁ ∧ Spells L t₂ s₂ := by
  generalize htoks : t₁ ++ [c] :: t₂ = toks at h
  induction h generalizing t₁ with
  | nil => cases t₁ <;> cases htoks
  | space hd _ ih =>
    obtain ⟨s₁, s₂, rfl, h₁, h₂⟩ := ih htoks
    exact ⟨_ :: s₁, s₂, rfl, .space hd h₁, h₂⟩
  | word hne hx hs _ ih =>
    cases t₁ with
    | nil =>
      cases htoks
      rw [hx c (List.mem_singleton_self c)] at hc
      cases hc
    | cons x t₁ =>
      obtain ⟨rfl, hrest⟩ := List.cons.inj htoks
      obtain ⟨s₁, s₂, rfl, h₁, h₂⟩ := ih hrest
      refine ⟨x ++ s₁, s₂, by simp, .word hne hx ?_ h₁, h₂⟩
      cases s₁ with
      | nil => exact stops_nil
      | cons d s₁ => exact stops_cons (hs d rfl)
  | mark hword hspace h ih =>
    cases t₁ with
    | nil =>
      cases htoks
      exact ⟨[], _, rfl, .nil, h⟩
    | cons x t₁ =>
      obtain ⟨rfl, hrest⟩ := List.cons.inj htoks
      obtain ⟨s₁, s₂, rfl, h₁, h₂⟩ := ih hrest
      exact ⟨_ :: s₁, s₂, rfl, .mark hword hspace h₁, h₂⟩

/-- A text whose first token is no word. -/
theorem Spells.first_mark_inv {c : α} (h : Spells L ([c] :: toks) s) (hc : L.word c = false) :
    ∃ w s', s = w ++ c :: s' ∧ (∀ d ∈ w, L.space d = true) ∧ Spells L toks s' := by
  have hmark : Spells L ([] ++ [c] :: toks) s := h
  obtain ⟨w, s', rfl, hw, h'⟩ := hmark.mark_inv hc
  exact ⟨w, s', rfl, hw.nil_inv, h'⟩

/-- What is no white space stands in a token. -/
theorem Spells.exists_mem (h : Spells L toks s) {c : α} (hc : c ∈ s) (hspace : L.space c = false) :
    ∃ x ∈ toks, c ∈ x := by
  induction h with
  | nil => cases hc
  | space hd _ ih =>
    rcases List.mem_cons.mp hc with rfl | hc
    · rw [hd] at hspace
      cases hspace
    · exact ih hc
  | word _ _ _ _ ih =>
    rcases List.mem_append.mp hc with hc | hc
    · exact ⟨_, List.mem_cons_self .., hc⟩
    · obtain ⟨x, hx, hc⟩ := ih hc
      exact ⟨x, List.mem_cons_of_mem _ hx, hc⟩
  | mark _ _ _ ih =>
    rcases List.mem_cons.mp hc with rfl | hc
    · exact ⟨_, List.mem_cons_self .., List.mem_singleton_self c⟩
    · obtain ⟨x, hx, hc⟩ := ih hc
      exact ⟨x, List.mem_cons_of_mem _ hx, hc⟩

theorem Spells.length_le (h : Spells L toks s) : toks.length ≤ s.length := by
  induction h with
  | nil => exact Nat.le_refl 0
  | space _ _ ih => exact Nat.le_succ_of_le ih
  | word hne _ _ _ ih =>
    have hpos := List.length_pos_iff.mpr hne
    rw [List.length_cons, List.length_append]
    omega
  | mark _ _ _ ih => exact Nat.succ_le_succ ih

/-- White space in front changes no token. -/
theorem Spells.append_left (h : Spells L toks s) {w : List α} (hw : ∀ c ∈ w, L.space c = true) :
    Spells L toks (w ++ s) := by
  induction w with
  | nil => exact h
  | cons c w ih =>
    obtain ⟨hc, hw⟩ := List.forall_mem_cons.mp hw
    exact .space hc (ih hw)

end CppRpc.Tokens
