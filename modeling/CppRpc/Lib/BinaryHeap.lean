import Mathlib.Order.Lattice

/-!
# Binary heaps on a list

`std::push_heap` and `std::pop_heap` on a list whose entries are compared by a
key, the smallest at the root.  Both follow libstdc++.  `pushHeap` lifts the
last entry.  `popHeap` moves the root behind the others, lets the entry that
took its place sink to a leaf without looking at its key, always along the
smaller child, and lifts it from there.  libstdc++ carries the moving entry in
a variable; a swap at every step gives the same list.

* `pushHeap_perm`: the entries are kept, whatever their order.
* `isHeap_pushHeap`: the last entry joins the heap in front of it.
* `popHeap_cons`: the root goes to the end, and behind a heap the others are a
  heap.
* `IsHeap.root_le` and `IsHeap.head_le`: the root of a heap is a smallest entry.

Sinking and lifting have one invariant each.  `HeapHole` says that every edge
is in order but those at the hole, and `HeapUp` that every edge is in order but
the one above it; both keep the order across the hole.
-/

namespace CppRpc.BinaryHeap

variable {α κ : Type}

/-! ## Swaps -/

/-- The list with two entries exchanged. -/
def swap (l : List α) (i j : Nat) : List α :=
  if h : i < l.length ∧ j < l.length then (l.set i l[j]).set j l[i] else l

@[simp] theorem swap_length (l : List α) (i j : Nat) : (swap l i j).length = l.length := by
  unfold swap
  split <;> simp

theorem swap_perm (l : List α) (i j : Nat) : (swap l i j).Perm l := by
  unfold swap
  split
  · rename_i h
    exact List.set_set_perm h.1 h.2
  · exact List.Perm.refl l

theorem swap_getElem {l : List α} {i j k : Nat} (hi : i < l.length) (hj : j < l.length)
    (hk : k < (swap l i j).length) :
    (swap l i j)[k] = if k = j then l[i] else if k = i then l[j] else
      l.get ⟨k, by rwa [swap_length] at hk⟩ := by
  simp only [swap, hi, hj, and_self, dite_true, List.getElem_set]
  grind

variable [LinearOrder κ] (key : α → κ)

/-! ## The heap order -/

/-- No entry comes before its parent. -/
def IsHeap (l : List α) : Prop :=
  ∀ i, ∀ h : i < l.length, 0 < i → key l[(i - 1) / 2] ≤ key l[i]

instance : DecidablePred (IsHeap key) :=
  fun l => inferInstanceAs (Decidable (∀ i, ∀ _ : i < l.length, 0 < i → _))

variable {key}

/-- The root of a heap is a smallest entry. -/
theorem IsHeap.root_le {l : List α} (h : IsHeap key l) {i : Nat} (hi : i < l.length) :
    key l[0] ≤ key l[i] := by
  induction i using Nat.strongRecOn with
  | ind i ih =>
    by_cases hpos : 0 < i
    · have hparent := ih ((i - 1) / 2) (by omega) (by omega)
      exact le_trans hparent (h i hi hpos)
    · obtain rfl : i = 0 := by omega
      exact le_refl _

theorem IsHeap.head_le {a : α} {l : List α} (h : IsHeap key (a :: l)) {b : α} (hb : b ∈ l) :
    key a ≤ key b := by
  obtain ⟨i, hi, rfl⟩ := List.getElem_of_mem hb
  exact h.root_le (i := i + 1) (Nat.succ_lt_succ hi)

theorem IsHeap.take {l : List α} (h : IsHeap key l) (n : Nat) : IsHeap key (l.take n) := by
  intro i hi hpos
  rw [List.length_take] at hi
  rw [List.getElem_take, List.getElem_take]
  exact h i (by omega) hpos

variable (key)

/-- Every edge is in order but the one above `hole`, and the entry above the
hole is in order with those below it. -/
structure HeapUp (l : List α) (hole : Nat) : Prop where
  edges : ∀ i, ∀ h : i < l.length, 0 < i → i ≠ hole → key l[(i - 1) / 2] ≤ key l[i]
  across : ∀ i, ∀ h : i < l.length, 0 < hole → 0 < i → ∀ _ : (i - 1) / 2 = hole,
    key l[(hole - 1) / 2] ≤ key l[i]

/-- Every edge is in order but those above and below `hole`, and the entry
above the hole is in order with those below it. -/
structure HeapHole (l : List α) (hole : Nat) : Prop where
  edges : ∀ i, ∀ h : i < l.length, 0 < i → i ≠ hole → (i - 1) / 2 ≠ hole →
    key l[(i - 1) / 2] ≤ key l[i]
  across : ∀ i, ∀ h : i < l.length, 0 < hole → 0 < i → ∀ _ : (i - 1) / 2 = hole,
    key l[(hole - 1) / 2] ≤ key l[i]

/-! ## Lifting -/

/-- Lift the entry at `i` until its parent does not come after it. -/
def siftUp : Nat → List α → Nat → List α
  | 0, l, _ => l
  | fuel + 1, l, i =>
      if h : i < l.length then
        if 0 < i ∧ key l[i] < key l[(i - 1) / 2] then
          siftUp fuel (swap l i ((i - 1) / 2)) ((i - 1) / 2)
        else l
      else l

/-- `std::push_heap` on the whole list. -/
def pushHeap (l : List α) : List α := siftUp key l.length l (l.length - 1)

theorem siftUp_perm (fuel : Nat) (l : List α) (i : Nat) : (siftUp key fuel l i).Perm l := by
  induction fuel generalizing l i with
  | zero => exact List.Perm.refl l
  | succ fuel ih =>
    unfold siftUp
    split
    · split
      · exact (ih _ _).trans (swap_perm _ _ _)
      · exact List.Perm.refl l
    · exact List.Perm.refl l

theorem pushHeap_perm (l : List α) : (pushHeap key l).Perm l := siftUp_perm key _ _ _

variable {key}

/-- One step of lifting. -/
theorem HeapUp.swap {l : List α} {i p : Nat} (h : HeapUp key l i) (hi : i < l.length)
    (hp : p < l.length) (h0 : 0 < i) (hpd : (i - 1) / 2 = p) (hlt : key l[i] < key l[p]) :
    HeapUp key (swap l i p) p := by
  constructor
  · intro j hj hj0 hjp
    rw [swap_length] at hj
    rw [swap_getElem hi hp, swap_getElem hi hp, if_neg hjp]
    by_cases hji : j = i
    · subst hji
      rw [if_pos hpd, if_pos rfl]
      exact le_of_lt hlt
    · rw [if_neg hji]
      have hedge := h.edges j hj hj0 hji
      by_cases hpj : (j - 1) / 2 = p
      · -- a sibling of the entry that rises
        rw [if_pos hpj]
        simp only [hpj] at hedge
        exact le_trans (le_of_lt hlt) hedge
      · rw [if_neg hpj]
        by_cases hpi : (j - 1) / 2 = i
        · -- a child of the hole
          rw [if_pos hpi]
          have hacross := h.across j hj h0 hj0 hpi
          simp only [hpd] at hacross
          exact hacross
        · rw [if_neg hpi]
          exact hedge
  · intro j hj hp0 hj0 hpj
    rw [swap_length] at hj
    have hpp := h.edges p hp hp0 (by omega)
    rw [swap_getElem hi hp, swap_getElem hi hp, if_neg (by omega), if_neg (by omega),
      if_neg (by omega)]
    by_cases hji : j = i
    · rw [if_pos hji]
      exact hpp
    · rw [if_neg hji]
      have hedge := h.edges j hj hj0 hji
      simp only [hpj] at hedge
      exact le_trans hpp hedge

theorem isHeap_siftUp {fuel : Nat} {l : List α} {i : Nat} (h : HeapUp key l i)
    (hi : i < l.length) (hfuel : i < fuel) : IsHeap key (siftUp key fuel l i) := by
  induction fuel generalizing l i with
  | zero => exact absurd hfuel (Nat.not_lt_zero i)
  | succ fuel ih =>
    unfold siftUp
    rw [dif_pos hi]
    split
    · rename_i hc
      exact ih (h.swap hi (by omega) hc.1 rfl hc.2) (by rw [swap_length]; omega) (by omega)
    · rename_i hc
      intro j hj hj0
      by_cases hji : j = i
      · subst hji
        exact not_lt.mp (fun hlt => hc ⟨hj0, hlt⟩)
      · exact h.edges j hj hj0 hji

/-- The last entry joins the heap in front of it. -/
theorem isHeap_pushHeap {l : List α} {a : α} (h : IsHeap key l) :
    IsHeap key (pushHeap key (l ++ [a])) := by
  have hlen : (l ++ [a]).length = l.length + 1 := List.length_append
  have hup : HeapUp key (l ++ [a]) l.length := by
    constructor
    · intro i hi h0 hne
      rw [List.getElem_append_left (by omega), List.getElem_append_left (by omega)]
      exact h i (by omega) h0
    · intro i hi _ _ hparent
      omega
  unfold pushHeap
  rw [hlen]
  exact isHeap_siftUp hup (by omega) (by omega)

/-! ## Sinking -/

variable (key)

/-- Let the entry at `i` sink to a leaf along the smaller child, and say where
it got to. -/
def sink : Nat → List α → Nat → List α × Nat
  | 0, l, i => (l, i)
  | fuel + 1, l, i =>
      if h : 2 * i + 2 < l.length then
        let c := if key l[2 * i + 1] < key l[2 * i + 2] then 2 * i + 1 else 2 * i + 2
        sink fuel (swap l i c) c
      else if 2 * i + 1 < l.length then (swap l i (2 * i + 1), 2 * i + 1)
      else (l, i)

/-- `std::pop_heap` on the whole list. -/
def popHeap (l : List α) : List α :=
  if h : 1 < l.length then
    let hole := (swap l 0 (l.length - 1)).dropLast
    let r := sink key hole.length hole 0
    siftUp key r.1.length r.1 r.2 ++ [l[0]]
  else l

theorem sink_perm (fuel : Nat) (l : List α) (i : Nat) : (sink key fuel l i).1.Perm l := by
  induction fuel generalizing l i with
  | zero => exact List.Perm.refl l
  | succ fuel ih =>
    unfold sink
    split
    · exact (ih _ _).trans (swap_perm _ _ _)
    · split
      · exact swap_perm _ _ _
      · exact List.Perm.refl l

variable {key}

/-- One step of sinking, to a child `c` that no other child comes before. -/
theorem HeapHole.swap {l : List α} {i c : Nat} (h : HeapHole key l i) (hc : c < l.length)
    (hc0 : 0 < c) (hic : (c - 1) / 2 = i)
    (hmin : ∀ j, ∀ hj : j < l.length, 0 < j → (j - 1) / 2 = i → key l[c] ≤ key l[j]) :
    HeapHole key (swap l i c) c := by
  have hi : i < l.length := by omega
  constructor
  · intro j hj hj0 hjc hpj
    rw [swap_length] at hj
    rw [swap_getElem hi hc, swap_getElem hi hc, if_neg hpj, if_neg hjc]
    by_cases hpi : (j - 1) / 2 = i
    · rw [if_pos hpi, if_neg (by omega)]
      exact hmin j hj hj0 hpi
    · rw [if_neg hpi]
      by_cases hji : j = i
      · subst hji
        rw [if_pos rfl]
        exact h.across c hc hj0 hc0 hic
      · rw [if_neg hji]
        exact h.edges j hj hj0 hji hpi
  · intro j hj _ hj0 hpj
    rw [swap_length] at hj
    have hedge := h.edges j hj hj0 (by omega) (by omega)
    simp only [hpj] at hedge
    rw [swap_getElem hi hc, swap_getElem hi hc, if_neg (by omega), if_pos hic,
      if_neg (by omega), if_neg (by omega)]
    exact hedge

theorem HeapHole.sink {fuel : Nat} {l : List α} {i : Nat} (h : HeapHole key l i)
    (hi : i < l.length) (hfuel : l.length ≤ i + fuel) :
    HeapUp key (sink key fuel l i).1 (sink key fuel l i).2 ∧
      (BinaryHeap.sink key fuel l i).2 < l.length := by
  -- At a leaf no edge hangs below the hole.
  have hleaf : ∀ {l : List α} {i : Nat}, HeapHole key l i → l.length ≤ 2 * i + 1 →
      HeapUp key l i := by
    intro l i h hle
    exact ⟨fun j hj hj0 hji => h.edges j hj hj0 hji (by omega), h.across⟩
  induction fuel generalizing l i with
  | zero => omega
  | succ fuel ih =>
    unfold BinaryHeap.sink
    split
    · rename_i h2
      dsimp only
      generalize hcd : (if key l[2 * i + 1] < key l[2 * i + 2] then 2 * i + 1 else 2 * i + 2) = c
      have hc : c = 2 * i + 1 ∨ c = 2 * i + 2 := by
        rw [← hcd]
        split
        · exact Or.inl rfl
        · exact Or.inr rfl
      have hcl : c < l.length := by omega
      have hmin : ∀ j, ∀ hj : j < l.length, 0 < j → (j - 1) / 2 = i → key l[c] ≤ key l[j] := by
        intro j hj hj0 hpj
        have hj' : j = 2 * i + 1 ∨ j = 2 * i + 2 := by omega
        subst hcd
        split
        · rename_i hlt
          rcases hj' with rfl | rfl
          · exact le_refl _
          · exact le_of_lt hlt
        · rename_i hge
          rcases hj' with rfl | rfl
          · exact not_lt.mp hge
          · exact le_refl _
      have hnext := ih (h.swap (by omega) (by omega) (by omega) hmin)
        (by rw [swap_length]; omega) (by rw [swap_length]; omega)
      rw [swap_length] at hnext
      exact hnext
    · split
      · rename_i h2 h1
        have hmin : ∀ j, ∀ hj : j < l.length, 0 < j → (j - 1) / 2 = i →
            key l[2 * i + 1] ≤ key l[j] := by
          intro j hj hj0 hpj
          obtain rfl : j = 2 * i + 1 := by omega
          exact le_refl _
        exact ⟨hleaf (h.swap h1 (by omega) (by omega) hmin) (by rw [swap_length]; omega), h1⟩
      · rename_i h1
        exact ⟨hleaf h (Nat.not_lt.mp h1), hi⟩

/-- The root and the last entry change places. -/
theorem swap_root (a : α) {l : List α} (h : 0 < l.length) :
    ∃ hole, swap (a :: l) 0 l.length = hole ++ [a] ∧
      ∀ i, ∀ _ : i < hole.length, ∀ _ : i < (a :: l).length, 0 < i → hole[i] = (a :: l)[i] := by
  have hlen : (a :: l).length = l.length + 1 := List.length_cons
  have hne : swap (a :: l) 0 l.length ≠ [] := by
    apply List.ne_nil_of_length_pos
    rw [swap_length]
    omega
  have hlast : (swap (a :: l) 0 l.length).getLast hne = a := by
    rw [List.getLast_eq_getElem, swap_getElem (by omega) (by omega), if_pos (by simp)]
    rfl
  refine ⟨(swap (a :: l) 0 l.length).dropLast, ?_, ?_⟩
  · have := List.dropLast_concat_getLast hne
    rw [hlast] at this
    exact this.symm
  · intro i hi _ h0
    rw [List.length_dropLast, swap_length] at hi
    rw [List.getElem_dropLast, swap_getElem (by omega) (by omega), if_neg (by omega),
      if_neg (by omega)]
    rfl

/-- The root goes to the end, whatever the order of the others. -/
theorem popHeap_cons (key : α → κ) (a : α) (l : List α) :
    ∃ rest, popHeap key (a :: l) = rest ++ [a] ∧ rest.Perm l ∧
      (IsHeap key (a :: l) → IsHeap key rest) := by
  have hlen : (a :: l).length = l.length + 1 := List.length_cons
  by_cases hl : 0 < l.length
  · obtain ⟨hole, hswap, hget⟩ := swap_root a hl
    have hperm := swap_perm (a :: l) 0 l.length
    rw [hswap] at hperm
    have hhole : hole.length = l.length := by
      have := hperm.length_eq
      rw [List.length_append] at this
      exact Nat.succ.inj this
    have hsame := sink_perm key hole.length hole 0
    refine ⟨siftUp key (sink key hole.length hole 0).1.length (sink key hole.length hole 0).1
      (sink key hole.length hole 0).2, ?_, ?_, ?_⟩
    · have hdrop : (swap (a :: l) 0 ((a :: l).length - 1)).dropLast = hole := by
        rw [show (a :: l).length - 1 = l.length from rfl, hswap, List.dropLast_concat]
      unfold popHeap
      rw [dif_pos (by omega), List.getElem_cons_zero]
      dsimp only
      rw [hdrop]
    · have htail := (List.perm_cons a).mp ((List.perm_append_singleton a hole).symm.trans hperm)
      exact (siftUp_perm key _ _ _).trans (hsame.trans htail)
    · intro h
      have hstart : HeapHole key hole 0 := by
        constructor
        · intro i hi h0 _ hp
          rw [hget i hi (by omega) h0, hget _ (by omega) (by omega) (Nat.pos_of_ne_zero hp)]
          exact h i (by omega) h0
        · intro i hi h0
          exact absurd h0 (Nat.lt_irrefl 0)
      obtain ⟨hup, hlt⟩ : HeapUp key (sink key hole.length hole 0).1
          (sink key hole.length hole 0).2 ∧ (sink key hole.length hole 0).2 < hole.length :=
        hstart.sink (by omega) (by omega)
      have := hsame.length_eq
      exact isHeap_siftUp hup (by omega) (by omega)
  · obtain rfl : l = [] := List.eq_nil_of_length_eq_zero (by omega)
    exact ⟨[], rfl, List.Perm.refl _, fun _ i hi => absurd hi (Nat.not_lt_zero i)⟩

/-! ## Ranges -/

/-- An algorithm applied to the range `[first, last)` of a list. -/
def onRange (f : List α → List α) (l : List α) (first last : Nat) : List α :=
  l.take first ++ f ((l.take last).drop first) ++ l.drop last

theorem onRange_append (f : List α → List α) (xs zs ys : List α) :
    onRange f (xs ++ (zs ++ ys)) xs.length (xs.length + zs.length) = xs ++ f zs ++ ys := by
  have hlast : xs.length + zs.length = (xs ++ zs).length := List.length_append.symm
  unfold onRange
  rw [List.take_left' rfl, hlast, ← List.append_assoc, List.take_left' rfl, List.drop_left' rfl,
    List.drop_left' rfl]

/-- Two entries behind a front part change places. -/
theorem swap_append (xs ys : List α) (i j : Nat) :
    swap (xs ++ ys) (xs.length + i) (xs.length + j) = xs ++ swap ys i j := by
  unfold swap
  by_cases h : i < ys.length ∧ j < ys.length
  · have h' : xs.length + i < (xs ++ ys).length ∧ xs.length + j < (xs ++ ys).length := by
      rw [List.length_append]
      omega
    rw [dif_pos h, dif_pos h', List.getElem_append_right (by omega),
      List.getElem_append_right (by omega), List.set_append_right _ _ (by omega),
      List.set_append_right _ _ (by omega)]
    simp only [Nat.add_sub_cancel_left]
  · have h' : ¬ (xs.length + i < (xs ++ ys).length ∧ xs.length + j < (xs ++ ys).length) := by
      rw [List.length_append]
      omega
    rw [dif_neg h, dif_neg h']

end CppRpc.BinaryHeap
