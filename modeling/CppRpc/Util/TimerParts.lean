import Mathlib.Data.List.Nodup
import CppRpc.Util.TimerManager

/-!
# The active and the inactive part of the timer vector

What each operation of `TimerManager` does to the two parts of `m_timers`,
whatever the order in the heap.  `Shaped` says that the counter lies in the
vector and that no timer has two entries.  A shaped manager is `ofParts xs ys`,
the active entries `xs` in front of the inactive ones `ys`, and each operation
is one equation on the parts: `disableTimer_cases`, `enableTimer_cases` and
`popDue_cases` say everything it can do.

The second section is the same on the level of sets: which timers are active
after an operation.
-/

namespace CppRpc

open BinaryHeap

namespace TimerManager

/-- The counter lies in the vector and the timers are distinct. -/
structure Shaped (m : TimerManager) : Prop where
  actived_nonneg : 0 ≤ m.activedTimers
  actived_le : m.activedTimers ≤ m.timers.length
  distinct : (m.timers.map TimerEntry.timer).Nodup

/-- The manager with the given active and inactive entries. -/
def ofParts (xs ys : List TimerEntry) : TimerManager := ⟨xs ++ ys, xs.length⟩

variable {xs ys : List TimerEntry} {t : TimerPtr}

@[simp] theorem active_ofParts : (ofParts xs ys).active = xs := by
  unfold active ofParts
  rw [Int.toNat_natCast, List.take_left' rfl]

@[simp] theorem inactive_ofParts : (ofParts xs ys).inactive = ys := by
  unfold inactive ofParts
  rw [Int.toNat_natCast, List.drop_left' rfl]

theorem position_ofParts : (ofParts xs ys).position t = xs.findIdx? (·.timer == t) := by
  unfold position
  rw [active_ofParts]

theorem actived_le_ofParts :
    (ofParts xs ys).activedTimers ≤ ((ofParts xs ys).timers.length : Int) := by
  show (xs.length : Int) ≤ (xs ++ ys).length
  rw [List.length_append]
  omega

theorem shaped_ofParts (hd : ((xs ++ ys).map TimerEntry.timer).Nodup) : (ofParts xs ys).Shaped :=
  ⟨Int.natCast_nonneg _, actived_le_ofParts, hd⟩

theorem Shaped.exists_parts {m : TimerManager} (h : m.Shaped) :
    ∃ xs ys, m = ofParts xs ys ∧ ((xs ++ ys).map TimerEntry.timer).Nodup := by
  have h0 := h.actived_nonneg
  have hle := h.actived_le
  have hsplit : m.active ++ m.inactive = m.timers := List.take_append_drop _ _
  have hlen : (m.active.length : Int) = m.activedTimers := by
    unfold active
    rw [List.length_take]
    omega
  refine ⟨m.active, m.inactive, ?_, hsplit ▸ h.distinct⟩
  unfold ofParts
  rw [hsplit, hlen]

theorem nodup_of_perm {l l' : List TimerEntry} (h : l.Perm l')
    (hd : (l'.map TimerEntry.timer).Nodup) : (l.map TimerEntry.timer).Nodup :=
  (h.map _).nodup_iff.mpr hd

/-- `pop_heap` on a range that starts at an active entry and ends where the
inactive ones start: the entry is the first inactive one then. -/
theorem pop_range (xs₁ : List TimerEntry) (a : TimerEntry) (xs₂ ys : List TimerEntry) :
    ∃ rest, (⟨onRange (popHeap TimerEntry.expired) ((xs₁ ++ a :: xs₂) ++ ys) xs₁.length
        (xs₁ ++ a :: xs₂).length, ((xs₁ ++ a :: xs₂).length : Int) - 1⟩ : TimerManager) =
        ofParts (xs₁ ++ rest) (a :: ys) ∧ rest.Perm xs₂ ∧
      (IsHeap TimerEntry.expired (a :: xs₂) → IsHeap TimerEntry.expired rest) := by
  obtain ⟨rest, hpop, hperm, hheap⟩ := popHeap_cons TimerEntry.expired a xs₂
  refine ⟨rest, ?_, hperm, hheap⟩
  have hrange := onRange_append (popHeap TimerEntry.expired) xs₁ (a :: xs₂) ys
  have hlen := hperm.length_eq
  unfold ofParts
  rw [List.append_assoc xs₁, List.length_append, hrange, hpop]
  congr 1
  · simp only [List.append_assoc, List.singleton_append]
  · rw [List.length_append, List.length_cons]
    omega

/-! ## The operations on the two parts -/

theorem addTimer_ofParts (xs ys : List TimerEntry) (t : TimerPtr) :
    (ofParts xs ys).addTimer t =
      if t ∈ (xs ++ ys).map TimerEntry.timer then ofParts xs ys
      else ofParts xs (ys ++ [⟨t, 0⟩]) := by
  have hany : (ofParts xs ys).timers.any (·.timer == t) = true ↔
      t ∈ (xs ++ ys).map TimerEntry.timer := by
    simp [ofParts, List.any_eq_true, List.mem_map]
  unfold addTimer
  by_cases h : t ∈ (xs ++ ys).map TimerEntry.timer
  · rw [if_pos (hany.mpr h), if_pos h]
  · rw [if_neg (fun h' => h (hany.mp h')), if_neg h]
    unfold ofParts
    rw [List.append_assoc]

/-- `disable_timer`: the timer is not active, or it stands behind `xs₁` and
leaves the heap. -/
theorem disableTimer_cases (xs ys : List TimerEntry) (t : TimerPtr) :
    (t ∉ xs.map TimerEntry.timer ∧ (ofParts xs ys).position t = none ∧
      (ofParts xs ys).disableTimer t = some (ofParts xs ys)) ∨
    ∃ xs₁ a xs₂ rest, xs = xs₁ ++ a :: xs₂ ∧ a.timer = t ∧
      (ofParts xs ys).position t = some xs₁.length ∧ rest.Perm xs₂ ∧
      (IsHeap TimerEntry.expired (a :: xs₂) → IsHeap TimerEntry.expired rest) ∧
      (ofParts xs ys).disableTimer t = some (ofParts (xs₁ ++ rest) (a :: ys)) := by
  unfold disableTimer
  rw [if_pos actived_le_ofParts, position_ofParts]
  cases hpos : xs.findIdx? (·.timer == t) with
  | none =>
    refine Or.inl ⟨?_, rfl, rfl⟩
    intro hmem
    obtain ⟨e, he, hte⟩ := List.mem_map.mp hmem
    have := List.findIdx?_eq_none_iff.mp hpos e he
    simp [hte] at this
  | some pos =>
    obtain ⟨hlt, ht, -⟩ := List.findIdx?_eq_some_iff_getElem.mp hpos
    have hlen : (xs.take pos).length = pos := by
      rw [List.length_take]
      omega
    have hsplit : xs = xs.take pos ++ xs[pos] :: xs.drop (pos + 1) := by
      rw [← List.drop_eq_getElem_cons hlt, List.take_append_drop]
    obtain ⟨rest, hpop, hperm, hheap⟩ :=
      pop_range (xs.take pos) xs[pos] (xs.drop (pos + 1)) ys
    rw [← hsplit, hlen] at hpop
    refine Or.inr ⟨_, _, _, rest, hsplit, by simpa using ht, by rw [hlen], hperm, hheap, ?_⟩
    exact congrArg some hpop

theorem modify_append (xs ys : List TimerEntry) (i : Nat) (f : TimerEntry → TimerEntry) :
    (xs ++ ys).modify (xs.length + i) f = xs ++ ys.modify i f := by
  induction xs with
  | nil => rw [List.nil_append, List.nil_append, List.length_nil, Nat.zero_add]
  | cons x xs ih =>
    rw [List.cons_append, List.length_cons, Nat.add_right_comm, List.modify_succ_cons, ih,
      List.cons_append]

/-- A new expiry does not touch the timers. -/
theorem map_timer_modify (ys : List TimerEntry) (i : Nat) (expired : Int) :
    (ys.modify i ({ · with expired })).map TimerEntry.timer = ys.map TimerEntry.timer := by
  induction ys generalizing i with
  | nil => rw [List.modify_nil]
  | cons y ys ih =>
    cases i with
    | zero => rfl
    | succ i => rw [List.modify_succ_cons, List.map_cons, List.map_cons, ih]

/-- `enable_timer`: the timer is not inactive, or its entry, with the new
expiry, goes to the end of the active part and is pushed. -/
theorem enableTimer_cases (xs ys : List TimerEntry) (t : TimerPtr) (expired : Int) :
    (t ∉ ys.map TimerEntry.timer ∧ (ofParts xs ys).enableTimer t expired = ofParts xs ys) ∨
    ∃ zs, (t :: zs.map TimerEntry.timer).Perm (ys.map TimerEntry.timer) ∧
      (ofParts xs ys).enableTimer t expired =
        ofParts (pushHeap TimerEntry.expired (xs ++ [⟨t, expired⟩])) zs := by
  unfold enableTimer
  have h0 : ¬ (ofParts xs ys).activedTimers < 0 := Int.not_lt.mpr (Int.natCast_nonneg _)
  rw [if_neg h0, inactive_ofParts]
  cases hi : ys.findIdx? (·.timer == t) with
  | none =>
    refine Or.inl ⟨?_, rfl⟩
    intro hmem
    obtain ⟨e, he, hte⟩ := List.mem_map.mp hmem
    have := List.findIdx?_eq_none_iff.mp hi e he
    simp [hte] at this
  | some i =>
    obtain ⟨hlt, ht, -⟩ := List.findIdx?_eq_some_iff_getElem.mp hi
    have ht' : ys[i].timer = t := by simpa using ht
    have htimers := map_timer_modify ys i expired
    have hmodify := modify_append xs ys i ({ · with expired })
    have hget : ∀ h : i < (ys.modify i ({ · with expired })).length,
        (ys.modify i ({ · with expired }))[i] = ⟨t, expired⟩ := by
      intro h
      rw [List.getElem_modify, if_pos rfl, ht']
    have hlen : (ys.modify i ({ · with expired })).length = ys.length := List.length_modify _ _ _
    generalize ys.modify i ({ · with expired }) = ys₁ at htimers hmodify hget hlen
    obtain ⟨e, zs, hswap⟩ : ∃ e zs, swap ys₁ 0 i = e :: zs := by
      apply List.exists_cons_of_length_pos
      rw [swap_length]
      omega
    have he : e = ⟨t, expired⟩ := by
      have hhead : (swap ys₁ 0 i)[0]? = some e := by rw [hswap]; rfl
      rw [List.getElem?_eq_getElem (by rw [swap_length]; omega),
        swap_getElem (by omega) (by omega)] at hhead
      split at hhead
      · rename_i h0
        subst h0
        exact (Option.some.inj hhead).symm.trans (hget (by omega))
      · exact (Option.some.inj hhead).symm.trans (hget (by omega))
    subst he
    have hmoved := swap_append xs ys₁ 0 i
    rw [Nat.add_zero, hswap] at hmoved
    have hrange := onRange_append (pushHeap TimerEntry.expired) [] (xs ++ [⟨t, expired⟩]) zs
    rw [List.nil_append, List.nil_append, List.length_nil, Nat.zero_add, List.length_append,
      List.append_assoc] at hrange
    have hpush : (pushHeap TimerEntry.expired (xs ++ [⟨t, expired⟩])).length = xs.length + 1 := by
      rw [(pushHeap_perm _ _).length_eq, List.length_append]
      rfl
    have hactived : (ofParts xs ys).activedTimers.toNat = xs.length := Int.toNat_natCast _
    refine Or.inr ⟨zs, ?_, ?_⟩
    · have := (swap_perm ys₁ 0 i).map TimerEntry.timer
      rwa [hswap, htimers] at this
    · show (⟨onRange (pushHeap TimerEntry.expired)
          (swap ((xs ++ ys).modify ((ofParts xs ys).activedTimers.toNat + i) _)
            (ofParts xs ys).activedTimers.toNat ((ofParts xs ys).activedTimers.toNat + i)) 0
          ((ofParts xs ys).activedTimers.toNat + 1), (xs.length : Int) + 1⟩ : TimerManager) = _
      rw [hactived, hmodify, hmoved]
      unfold ofParts
      rw [hpush]
      exact congrArg (TimerManager.mk · _) hrange

/-- One turn of the loop in `run` with an active timer: the root is due and
leaves the heap, or the loop ends. -/
theorem popDue_cases (a : TimerEntry) (xs ys : List TimerEntry) (now : Int) :
    (now < a.expired ∧
      (ofParts (a :: xs) ys).popDue now = some (none, ofParts (a :: xs) ys)) ∨
    (a.expired ≤ now ∧ ∃ rest, rest.Perm xs ∧
      (IsHeap TimerEntry.expired (a :: xs) → IsHeap TimerEntry.expired rest) ∧
      (ofParts (a :: xs) ys).popDue now = some (some a.timer, ofParts rest (a :: ys))) := by
  unfold popDue
  rw [show (ofParts (a :: xs) ys).timers = a :: (xs ++ ys) from rfl]
  dsimp only
  by_cases hdue : a.expired ≤ now
  · obtain ⟨rest, hpop, hperm, hheap⟩ := pop_range [] a xs ys
    have hle : (ofParts (a :: xs) ys).activedTimers ≤ ((a :: (xs ++ ys)).length : Int) :=
      actived_le_ofParts
    rw [if_pos hdue, if_pos hle]
    refine Or.inr ⟨hdue, rest, hperm, hheap, ?_⟩
    exact congrArg (fun m => some (some a.timer, m)) hpop
  · rw [if_neg hdue]
    exact Or.inl ⟨Int.not_le.mp hdue, rfl⟩

/-- `remove_timer`'s second block, for an inactive timer. -/
theorem eraseTimer_ofParts (h : t ∉ xs.map TimerEntry.timer) :
    (ofParts xs ys).eraseTimer t = ofParts xs (ys.eraseP (·.timer == t)) := by
  have hfront : ∀ e ∈ xs, ¬ (e.timer == t) = true := by
    intro e he hte
    exact h (List.mem_map.mpr ⟨e, he, by simpa using hte⟩)
  unfold eraseTimer ofParts
  dsimp only
  rw [List.eraseP_append_right ys hfront]

/-! ## Which timers are active -/

/-- The timers of the active entries. -/
def activeTimers (m : TimerManager) : List TimerPtr := m.active.map TimerEntry.timer

@[simp] theorem activeTimers_ofParts : (ofParts xs ys).activeTimers = xs.map TimerEntry.timer := by
  unfold activeTimers
  rw [active_ofParts]

/-- Taking one entry out of the active part. -/
theorem mem_rest_iff {xs₁ xs₂ rest : List TimerEntry} {a : TimerEntry} (hperm : rest.Perm xs₂)
    (hd : ((xs₁ ++ a :: xs₂ ++ ys).map TimerEntry.timer).Nodup) (u : TimerPtr) :
    u ∈ (xs₁ ++ rest).map TimerEntry.timer ↔
      u ∈ (xs₁ ++ a :: xs₂).map TimerEntry.timer ∧ u ≠ a.timer := by
  have hmem : u ∈ rest.map TimerEntry.timer ↔ u ∈ xs₂.map TimerEntry.timer :=
    (hperm.map _).mem_iff
  have hnot : ¬ (a.timer ∈ xs₁.map TimerEntry.timer ∨ a.timer ∈ xs₂.map TimerEntry.timer) := by
    rw [List.map_append, List.nodup_append, List.map_append, List.map_cons] at hd
    rw [← List.mem_append]
    exact (List.nodup_cons.mp (List.nodup_middle.mp hd.1)).1
  simp only [List.map_append, List.map_cons, List.mem_append, List.mem_cons, hmem]
  constructor
  · rintro (h | h)
    · exact ⟨Or.inl h, fun hu => hnot (Or.inl (hu ▸ h))⟩
    · exact ⟨Or.inr (Or.inr h), fun hu => hnot (Or.inr (hu ▸ h))⟩
  · rintro ⟨h | rfl | h, hne⟩
    · exact Or.inl h
    · exact absurd rfl hne
    · exact Or.inr h

theorem perm_pop {xs₁ xs₂ rest : List TimerEntry} {a : TimerEntry} (hperm : rest.Perm xs₂) :
    (xs₁ ++ rest ++ a :: ys).Perm (xs₁ ++ a :: xs₂ ++ ys) := by
  rw [List.append_assoc, List.append_assoc]
  refine List.Perm.append_left xs₁ ?_
  exact List.perm_middle.trans ((hperm.append_right ys).cons a)

variable {m : TimerManager}

theorem Shaped.addTimer (h : m.Shaped) (t : TimerPtr) :
    (m.addTimer t).Shaped ∧ (m.addTimer t).activeTimers = m.activeTimers := by
  obtain ⟨xs, ys, rfl, hd⟩ := h.exists_parts
  rw [addTimer_ofParts]
  split
  · exact ⟨shaped_ofParts hd, rfl⟩
  · rename_i hnew
    refine ⟨shaped_ofParts ?_, by rw [activeTimers_ofParts, activeTimers_ofParts]⟩
    rw [← List.append_assoc, List.map_append, List.map_singleton]
    exact (List.perm_append_singleton t _).nodup_iff.mpr (List.nodup_cons.mpr ⟨hnew, hd⟩)

theorem Shaped.disableTimer (h : m.Shaped) (t : TimerPtr) :
    ∃ m', m.disableTimer t = some m' ∧ m'.Shaped ∧
      ∀ u, u ∈ m'.activeTimers ↔ u ∈ m.activeTimers ∧ u ≠ t := by
  obtain ⟨xs, ys, rfl, hd⟩ := h.exists_parts
  rcases disableTimer_cases xs ys t with
    ⟨hnot, -, heq⟩ | ⟨xs₁, a, xs₂, rest, rfl, rfl, -, hperm, -, heq⟩
  · refine ⟨_, heq, h, fun u => ?_⟩
    rw [activeTimers_ofParts]
    exact ⟨fun hu => ⟨hu, fun hut => hnot (hut ▸ hu)⟩, And.left⟩
  · refine ⟨_, heq, shaped_ofParts (nodup_of_perm (perm_pop hperm) hd), fun u => ?_⟩
    rw [activeTimers_ofParts, activeTimers_ofParts]
    exact mem_rest_iff hperm hd u

theorem Shaped.enableTimer (h : m.Shaped) (t : TimerPtr) (expired : Int) :
    (m.enableTimer t expired).Shaped ∧
      ∀ u, u ∈ (m.enableTimer t expired).activeTimers → u ∈ m.activeTimers ∨ u = t := by
  obtain ⟨xs, ys, rfl, hd⟩ := h.exists_parts
  rcases enableTimer_cases xs ys t expired with ⟨-, heq⟩ | ⟨zs, hzs, heq⟩
  · rw [heq]
    exact ⟨h, fun u hu => Or.inl hu⟩
  · rw [heq]
    have hpush := (pushHeap_perm TimerEntry.expired (xs ++ [⟨t, expired⟩])).map TimerEntry.timer
    refine ⟨shaped_ofParts ?_, fun u hu => ?_⟩
    · rw [List.map_append] at hd ⊢
      refine (hpush.append_right _).nodup_iff.mpr ?_
      rw [List.map_append, List.append_assoc]
      exact (hzs.append_left _).nodup_iff.mpr hd
    · rw [activeTimers_ofParts] at hu ⊢
      have hmem := hpush.mem_iff.mp hu
      rw [List.map_append, List.mem_append] at hmem
      rcases hmem with hmem | hmem
      · exact Or.inl hmem
      · exact Or.inr (List.mem_singleton.mp hmem)

theorem Shaped.eraseTimer (h : m.Shaped) (ht : t ∉ m.activeTimers) :
    (m.eraseTimer t).Shaped ∧ (m.eraseTimer t).activeTimers = m.activeTimers := by
  obtain ⟨xs, ys, rfl, hd⟩ := h.exists_parts
  rw [activeTimers_ofParts] at ht
  rw [eraseTimer_ofParts ht]
  refine ⟨shaped_ofParts ?_, by rw [activeTimers_ofParts, activeTimers_ofParts]⟩
  exact hd.sublist (((List.eraseP_sublist).append_left xs).map _)

theorem Shaped.popDue (h : m.Shaped) (hpos : 0 < m.activedTimers) (now : Int) :
    ∃ r, m.popDue now = some r ∧ r.2.Shaped ∧ (r.1 = none → r.2 = m) ∧
      ∀ t, r.1 = some t → t ∈ m.activeTimers ∧ r.2.activedTimers = m.activedTimers - 1 ∧
        ∀ u, u ∈ r.2.activeTimers ↔ u ∈ m.activeTimers ∧ u ≠ t := by
  obtain ⟨xs, ys, rfl, hd⟩ := h.exists_parts
  cases xs with
  | nil => exact absurd hpos (Int.lt_irrefl 0)
  | cons a xs =>
    rcases popDue_cases a xs ys now with ⟨-, heq⟩ | ⟨-, rest, hperm, -, heq⟩
    · exact ⟨_, heq, h, fun _ => rfl, fun t ht => by cases ht⟩
    · refine ⟨_, heq, shaped_ofParts (nodup_of_perm (@perm_pop _ [] _ _ _ hperm) hd),
        fun hnone => absurd hnone (Option.some_ne_none _), ?_⟩
      intro t ht
      cases ht
      refine ⟨?_, ?_, fun u => ?_⟩
      · rw [activeTimers_ofParts]
        exact List.mem_cons_self ..
      · show (rest.length : Int) = ((a :: xs).length : Int) - 1
        rw [hperm.length_eq, List.length_cons]
        omega
      · rw [activeTimers_ofParts, activeTimers_ofParts]
        exact @mem_rest_iff _ [] _ _ _ hperm hd u

end TimerManager

end CppRpc
