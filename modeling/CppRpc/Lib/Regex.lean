import Mathlib.Data.List.Forall2

/-!
# Backtracking search for a pattern

A `Pattern` is a sequence of items.  An item is a set of characters that is
taken once, any number of times (`*`) or at least once (`+`), inside a capture
group or not.  These are the regular expressions without alternatives and
without nested repetitions.

`ways` lists the ways to match a pattern at the start of a text, in the order
in which an ECMAScript engine tries them: every repetition takes as much as it
can, and gives characters back one by one when the rest fails.  `search` takes
the first way at the leftmost place that has one.

* `mem_ways` says which ways there are: the pieces fit the items.  With it
  `search_eq_some` and `isSome_search` speak about pieces only.
* `head?_ways_cons` finds the first way: a run that cannot be longer comes
  first, when the rest can go on behind it.  `head?_ways_of_unique` serves
  where there is one way only.
-/

namespace CppRpc.Regex

variable {α : Type}

/-! ## Items and patterns -/

inductive Rep
  | once
  | star
  | plus

structure Item (α : Type) where
  set : α → Bool
  rep : Rep
  captured : Bool

abbrev Pattern (α : Type) := List (Item α)

/-- The ways to take a run of `p` off a text, the longest first. -/
def runs (p : α → Bool) : List α → List (List α × List α)
  | [] => [([], [])]
  | c :: s =>
      if p c then (runs p s).map (fun w => (c :: w.1, w.2)) ++ [([], c :: s)]
      else [([], c :: s)]

namespace Item

def ways (i : Item α) (s : List α) : List (List α × List α) :=
  match i.rep with
  | .once =>
      match s with
      | [] => []
      | c :: s => if i.set c then [([c], s)] else []
  | .star => runs i.set s
  | .plus => (runs i.set s).filter fun w => !w.1.isEmpty

/-- The pieces of text that an item stands for. -/
def Accepts (i : Item α) (x : List α) : Prop :=
  (∀ c ∈ x, i.set c = true) ∧
    match i.rep with
    | .once => x.length = 1
    | .star => True
    | .plus => x ≠ []

end Item

/-- The ways to match a pattern at the start of a text: the pieces that its
items take, and what is left. -/
def ways : Pattern α → List α → List (List (List α) × List α)
  | [], s => [([], s)]
  | i :: pat, s => (i.ways s).flatMap fun w => (ways pat w.2).map fun v => (w.1 :: v.1, v.2)

/-- What a search has found. -/
structure Match (α : Type) where
  before : List α
  pieces : List (List α)
  after : List α

/-- The first way at the leftmost place that has one. -/
def search (pat : Pattern α) : List α → Option (Match α)
  | [] => (ways pat []).head?.map fun v => ⟨[], v.1, v.2⟩
  | c :: s =>
      match (ways pat (c :: s)).head? with
      | some v => some ⟨[], v.1, v.2⟩
      | none => (search pat s).map fun m => { m with before := c :: m.before }

/-- What the capture groups hold. -/
def Match.groups (m : Match α) (pat : Pattern α) : List (List α) :=
  ((pat.zip m.pieces).filter fun ip => ip.1.captured).map Prod.snd

/-! ## The ways there are -/

theorem mem_runs {p : α → Bool} {s : List α} {w : List α × List α} :
    w ∈ runs p s ↔ s = w.1 ++ w.2 ∧ ∀ c ∈ w.1, p c = true := by
  obtain ⟨x, t⟩ := w
  induction s generalizing x with
  | nil =>
    simp only [runs, List.mem_singleton, Prod.mk.injEq]
    constructor
    · rintro ⟨rfl, rfl⟩
      exact ⟨rfl, nofun⟩
    · exact fun h => List.append_eq_nil_iff.mp h.1.symm
  | cons c s ih =>
    cases x with
    | nil =>
      have hlast : ([], t) ∈ runs p (c :: s) ↔ t = c :: s := by
        unfold runs
        split <;> simp
      rw [hlast, eq_comm]
      exact ⟨fun h => ⟨h, nofun⟩, fun h => h.1⟩
    | cons d x =>
      unfold runs
      split
      · rename_i hc
        simp only [List.mem_append, List.mem_map, List.mem_singleton, Prod.exists, Prod.mk.injEq,
          List.cons.injEq, List.cons_append]
        constructor
        · rintro (⟨y, t', hy, ⟨rfl, rfl⟩, rfl⟩ | ⟨hnil, -⟩)
          · obtain ⟨rfl, hset⟩ := (ih y).mp hy
            exact ⟨⟨rfl, rfl⟩, List.forall_mem_cons.mpr ⟨hc, hset⟩⟩
          · cases hnil
        · rintro ⟨⟨rfl, rfl⟩, hset⟩
          exact Or.inl ⟨x, t, (ih x).mpr ⟨rfl, (List.forall_mem_cons.mp hset).2⟩, ⟨rfl, rfl⟩, rfl⟩
      · rename_i hc
        simp only [List.mem_singleton, Prod.mk.injEq, List.cons_append, List.cons.injEq]
        constructor
        · rintro ⟨hnil, -⟩
          cases hnil
        · rintro ⟨⟨rfl, -⟩, hset⟩
          exact absurd (hset c (List.mem_cons_self ..)) hc

theorem Item.mem_ways {i : Item α} {s : List α} {w : List α × List α} :
    w ∈ i.ways s ↔ s = w.1 ++ w.2 ∧ i.Accepts w.1 := by
  obtain ⟨x, t⟩ := w
  unfold ways Accepts
  cases i.rep with
  | star => simp only [mem_runs, and_true]
  | plus => simp only [List.mem_filter, mem_runs, Bool.not_eq_true', List.isEmpty_eq_false_iff,
      and_assoc]
  | once =>
    cases s with
    | nil =>
      simp only [List.not_mem_nil, false_iff]
      rintro ⟨h, -, hlen⟩
      have := congrArg List.length h
      simp only [List.length_append, List.length_nil] at this
      omega
    | cons c s =>
      simp only [List.length_eq_one_iff]
      split
      · rename_i hc
        simp only [List.mem_singleton, Prod.mk.injEq]
        constructor
        · rintro ⟨rfl, rfl⟩
          exact ⟨rfl, by simpa using hc, c, rfl⟩
        · rintro ⟨h, -, d, rfl⟩
          obtain ⟨rfl, rfl⟩ := List.cons.inj h
          exact ⟨rfl, rfl⟩
      · rename_i hc
        simp only [List.not_mem_nil, false_iff]
        rintro ⟨h, hset, d, rfl⟩
        obtain ⟨rfl, rfl⟩ := List.cons.inj h
        exact hc (hset c (List.mem_singleton_self c))

/-- A way to match splits the text into pieces that fit the items. -/
theorem mem_ways {pat : Pattern α} {s : List α} {v : List (List α) × List α} :
    v ∈ ways pat s ↔ s = v.1.flatten ++ v.2 ∧ List.Forall₂ Item.Accepts pat v.1 := by
  obtain ⟨pieces, t⟩ := v
  induction pat generalizing s pieces with
  | nil =>
    simp only [ways, List.mem_singleton, Prod.mk.injEq, List.forall₂_nil_left_iff]
    constructor
    · rintro ⟨rfl, rfl⟩
      exact ⟨rfl, rfl⟩
    · rintro ⟨rfl, rfl⟩
      exact ⟨rfl, rfl⟩
  | cons i pat ih =>
    simp only [ways, List.mem_flatMap, List.mem_map, Item.mem_ways, Prod.exists, Prod.mk.injEq,
      List.forall₂_cons_left_iff]
    constructor
    · rintro ⟨x, u, ⟨rfl, hx⟩, ps, t', hps, rfl, rfl⟩
      obtain ⟨rfl, hfit⟩ := (ih ps).mp hps
      exact ⟨by rw [List.flatten_cons, List.append_assoc], x, ps, hx, hfit, rfl⟩
    · rintro ⟨rfl, x, ps, hx, hfit, rfl⟩
      exact ⟨x, ps.flatten ++ t, ⟨by rw [List.flatten_cons, List.append_assoc], hx⟩, ps, t,
        (ih ps).mpr ⟨rfl, hfit⟩, rfl, rfl⟩

/-- No way starts at a character that the first item needs and does not take. -/
theorem ways_cons_eq_nil {i : Item α} (hrep : i.rep ≠ .star) {c : α} (hc : i.set c = false)
    (pat : Pattern α) (s : List α) : ways (i :: pat) (c :: s) = [] := by
  have hitem : i.ways (c :: s) = [] := by
    unfold Item.ways
    cases h : i.rep with
    | once => simp only [hc, Bool.false_eq_true, if_false]
    | star => exact absurd h hrep
    | plus => simp [runs, hc]
  rw [ways, hitem, List.flatMap_nil]

/-! ## What a search finds -/

/-- A way at the start of the text is what the search finds. -/
theorem search_of_head? {pat : Pattern α} {s : List α} {pieces : List (List α)} {rest : List α}
    (h : (ways pat s).head? = some (pieces, rest)) : search pat s = some ⟨[], pieces, rest⟩ := by
  cases s with
  | nil => rw [search, h, Option.map_some]
  | cons c s => rw [search, h]

/-- A character where no way starts is passed over. -/
theorem search_cons {pat : Pattern α} {c : α} {s : List α} (h : ways pat (c :: s) = []) :
    search pat (c :: s) = (search pat s).map fun m => { m with before := c :: m.before } := by
  rw [search, h, List.head?_nil]

theorem search_eq_some {pat : Pattern α} {s : List α} {m : Match α} (h : search pat s = some m) :
    s = m.before ++ (m.pieces.flatten ++ m.after) ∧ List.Forall₂ Item.Accepts pat m.pieces := by
  induction s generalizing m with
  | nil =>
    obtain ⟨v, hv, rfl⟩ := Option.map_eq_some_iff.mp h
    exact mem_ways.mp (List.mem_of_head? hv)
  | cons c s ih =>
    cases hways : (ways pat (c :: s)).head? with
    | some v =>
      rw [search_of_head? hways] at h
      cases h
      exact mem_ways.mp (List.mem_of_head? hways)
    | none =>
      rw [search_cons (List.head?_eq_none_iff.mp hways)] at h
      obtain ⟨m', hm', rfl⟩ := Option.map_eq_some_iff.mp h
      obtain ⟨hs, hfit⟩ := ih hm'
      exact ⟨congrArg (c :: ·) hs, hfit⟩

/-- A search finds something where a part of the text fits the pattern. -/
theorem isSome_search {pat : Pattern α} {pieces : List (List α)}
    (h : List.Forall₂ Item.Accepts pat pieces) (before after : List α) :
    (search pat (before ++ (pieces.flatten ++ after))).isSome := by
  induction before with
  | nil =>
    have hmem : (pieces, after) ∈ ways pat (pieces.flatten ++ after) := mem_ways.mpr ⟨rfl, h⟩
    obtain ⟨v, hv⟩ := Option.isSome_iff_exists.mp (List.isSome_head?.mpr (List.ne_nil_of_mem hmem))
    rw [List.nil_append, search_of_head? hv]
    rfl
  | cons c before ih =>
    cases hways : (ways pat (c :: (before ++ (pieces.flatten ++ after)))).head? with
    | some v =>
      rw [List.cons_append, search_of_head? hways]
      rfl
    | none =>
      rw [List.cons_append, search_cons (List.head?_eq_none_iff.mp hways), Option.isSome_map]
      exact ih

/-- A text in front of which no way starts is passed over. -/
theorem search_append {pat : Pattern α} {s t : List α} (h : ∀ c u, c ∈ s → ways pat (c :: u) = []) :
    search pat (s ++ t) = (search pat t).map fun m => { m with before := s ++ m.before } := by
  induction s with
  | nil => simp
  | cons c s ih =>
    rw [List.cons_append, search_cons (h c _ (List.mem_cons_self ..)),
      ih fun d u hd => h d u (List.mem_cons_of_mem c hd), Option.map_map]
    rfl

/-! ## The first way -/

theorem head?_flatMap_of_head? {β γ : Type} {l : List β} {f : β → List γ} {b : β} {v : γ}
    (hb : l.head? = some b) (hv : (f b).head? = some v) : (l.flatMap f).head? = some v := by
  obtain ⟨l', rfl⟩ := List.head?_eq_some_iff.mp hb
  rw [List.flatMap_cons, List.head?_append, hv]
  rfl

/-- No run of `p` goes on at this text. -/
def Stops (p : α → Bool) (t : List α) : Prop := ∀ c ∈ t.head?, p c = false

theorem stops_nil {p : α → Bool} : Stops p [] := nofun

theorem stops_cons {p : α → Bool} {c : α} {t : List α} (hc : p c = false) : Stops p (c :: t) := by
  rintro d hd
  rwa [← Option.some.inj hd]

theorem stops_append {p : α → Bool} {x t : List α} (hx : ∀ c ∈ x, p c = false)
    (ht : Stops p t) : Stops p (x ++ t) := by
  cases x with
  | nil => exact ht
  | cons c x => exact stops_cons (hx c (List.mem_cons_self ..))

theorem stops_append_of_ne_nil {p : α → Bool} {x t : List α} (hx : ∀ c ∈ x, p c = false)
    (hne : x ≠ []) : Stops p (x ++ t) := by
  cases x with
  | nil => exact absurd rfl hne
  | cons c x => exact stops_cons (hx c (List.mem_cons_self ..))

/-- A run that the next character does not go on is the longest. -/
theorem head?_runs {p : α → Bool} {x t : List α} (hx : ∀ c ∈ x, p c = true)
    (ht : Stops p t) : (runs p (x ++ t)).head? = some (x, t) := by
  induction x with
  | nil =>
    cases t with
    | nil => rfl
    | cons c t =>
      rw [List.nil_append, runs, if_neg (by rw [ht c rfl]; exact Bool.false_ne_true)]
      rfl
  | cons c x ih =>
    obtain ⟨hc, hx⟩ := List.forall_mem_cons.mp hx
    rw [List.cons_append, runs, if_pos hc, List.head?_append, List.head?_map, ih hx]
    rfl

/-- The piece that an item takes first: one character, or a run that the next
character does not go on. -/
theorem Item.head?_ways {i : Item α} {x t : List α} (hx : i.Accepts x)
    (ht : i.rep = .once ∨ Stops i.set t) :
    (i.ways (x ++ t)).head? = some (x, t) := by
  obtain ⟨hset, hlen⟩ := hx
  unfold ways
  cases hrep : i.rep with
  | once =>
    rw [hrep] at hlen
    obtain ⟨c, rfl⟩ := List.length_eq_one_iff.mp hlen
    simp [hset c (List.mem_singleton_self c)]
  | star => exact head?_runs hset (ht.resolve_left (by simp [hrep]))
  | plus =>
    rw [hrep] at hlen
    obtain ⟨l, hl⟩ := List.head?_eq_some_iff.mp
      (head?_runs hset (ht.resolve_left (by simp [hrep])))
    rw [hl, List.filter_cons_of_pos (by simpa using hlen)]
    rfl

/-- The first way takes the first piece of the first item, when the other items
can go on behind it. -/
theorem head?_ways_cons {i : Item α} {pat : Pattern α} {x t : List α} {pieces : List (List α)}
    {rest : List α} (hx : i.Accepts x) (ht : i.rep = .once ∨ Stops i.set t)
    (hrest : (ways pat t).head? = some (pieces, rest)) :
    (ways (i :: pat) (x ++ t)).head? = some (x :: pieces, rest) := by
  apply head?_flatMap_of_head? (Item.head?_ways hx ht)
  rw [List.head?_map, hrest]
  rfl

/-- Where there is one way only, it is the first one. -/
theorem head?_ways_of_unique {pat : Pattern α} {s : List α} {v : List (List α) × List α}
    (hv : v ∈ ways pat s) (hunique : ∀ w ∈ ways pat s, w = v) : (ways pat s).head? = some v := by
  cases hways : ways pat s with
  | nil =>
    rw [hways] at hv
    cases hv
  | cons w l =>
    rw [hways] at hunique
    rw [List.head?_cons, hunique w (List.mem_cons_self ..)]

end CppRpc.Regex
