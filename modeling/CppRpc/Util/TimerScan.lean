import CppRpc.Util.TimerHeap

/-!
# A pass of `run`

The loop in `run` pops the root while it is due.  The heap shrinks from the
right, and the timers popped stand behind it, the last one first.

`FiresDue` is the property: exactly the due timers are collected, the earliest
first, the others stay active in a heap, and no entry is lost.
`run_firesDue` is the result.  The induction is on the number of active timers,
so that the loop is seen to end: no fuel above this number makes a difference.
-/

namespace CppRpc

open BinaryHeap

namespace TimerManager

/-- The property, for the entries `fired` of the collected timers and the
manager `m'` behind the pass. -/
structure FiresDue (now : Int) (m : TimerManager) (fired : List TimerEntry) (m' : TimerManager) :
    Prop where
  due : fired.Perm (m.active.filter (·.expired ≤ now))
  once : (fired.map TimerEntry.timer).Nodup
  sorted : fired.Pairwise (·.expired ≤ ·.expired)
  active : m'.active.Perm (m.active.filter (now < ·.expired))
  inactive : m'.inactive.Perm (fired ++ m.inactive)
  timers : m'.timers.Perm m.timers
  valid : m'.Valid

variable {m : TimerManager} {xs ys : List TimerEntry} {now : Int}

theorem scanning_ofParts : (ofParts xs ys).scanning = true ↔ xs ≠ [] := by
  cases xs <;> simp [scanning, ofParts]

/-- The pass, on the two parts of the vector. -/
theorem scan_ofParts (hh : IsHeap TimerEntry.expired xs) :
    ∃ fired rest : List TimerEntry, fired.Perm (xs.filter (·.expired ≤ now)) ∧
      fired.Pairwise (·.expired ≤ ·.expired) ∧ rest.Perm (xs.filter (now < ·.expired)) ∧
      IsHeap TimerEntry.expired rest ∧ ∀ fuel, xs.length < fuel →
        (ofParts xs ys).scan now fuel =
          some (fired.map TimerEntry.timer, ofParts rest (fired.reverse ++ ys)) := by
  induction hn : xs.length generalizing xs ys with
  | zero =>
    obtain rfl := List.eq_nil_of_length_eq_zero hn
    refine ⟨[], [], .nil, .nil, .nil, hh, ?_⟩
    intro fuel hfuel
    obtain ⟨fuel, rfl⟩ := Nat.exists_eq_add_of_lt hfuel
    rfl
  | succ n ih =>
    obtain ⟨a, xs, rfl⟩ := List.exists_cons_of_length_eq_add_one hn
    rcases popDue_cases a xs ys now with ⟨hlater, hstop⟩ | ⟨hdue, xs', hperm, hheap, hpop⟩
    · -- the root is not due, so no timer is
      have hall : ∀ e ∈ a :: xs, now < e.expired := by
        intro e he
        rcases List.mem_cons.mp he with rfl | he
        · exact hlater
        · exact lt_of_lt_of_le hlater (hh.head_le he)
      have hnone : (a :: xs).filter (·.expired ≤ now) = [] := by
        rw [List.filter_eq_nil_iff]
        intro e he
        simpa using hall e he
      have hkept : (a :: xs).filter (now < ·.expired) = a :: xs := by
        rw [List.filter_eq_self]
        intro e he
        simpa using hall e he
      refine ⟨[], a :: xs, ?_, .nil, ?_, hh, ?_⟩
      · rw [hnone]
      · rw [hkept]
      · intro fuel hfuel
        obtain ⟨fuel, rfl⟩ := Nat.exists_eq_add_of_lt hfuel
        unfold scan
        rw [if_pos (scanning_ofParts.mpr (List.cons_ne_nil a xs)), hstop]
        rfl
    · obtain ⟨fired, rest, hfired, hsorted, hrest, hrestHeap, hscan⟩ :=
        @ih xs' (a :: ys) (hheap hh) (hperm.length_eq.trans (Nat.succ.inj hn))
      have hafter : ∀ e ∈ fired, a.expired ≤ e.expired := by
        intro e he
        exact hh.head_le (hperm.mem_iff.mp (List.mem_filter.mp (hfired.mem_iff.mp he)).1)
      refine ⟨a :: fired, rest, ?_, List.pairwise_cons.mpr ⟨hafter, hsorted⟩, ?_, hrestHeap, ?_⟩
      · rw [List.filter_cons_of_pos (by simpa using hdue)]
        exact (hfired.trans (hperm.filter _)).cons a
      · rw [List.filter_cons_of_neg (by simpa using hdue)]
        exact hrest.trans (hperm.filter _)
      · intro fuel hfuel
        obtain ⟨fuel, rfl⟩ := Nat.exists_eq_add_of_lt hfuel
        unfold scan
        rw [if_pos (scanning_ofParts.mpr (List.cons_ne_nil a xs)), hpop, Option.bind_some]
        dsimp only
        rw [hscan _ (by omega), Option.map_some, List.map_cons, List.reverse_cons,
          List.append_assoc, List.singleton_append]

/-- From every state whose active timers are a heap, and for every time, a pass
of `run` ends, however long the loop may go on, and fires exactly the due
timers. -/
theorem run_firesDue (h : m.Valid) (now : Int) :
    ∃ fired m', m.run now = some (fired.map TimerEntry.timer, m') ∧ FiresDue now m fired m' ∧
      ∀ fuel, m.activedTimers < (fuel : Nat) → m.scan now fuel = m.run now := by
  obtain ⟨xs, ys, rfl, hh⟩ := h.exists_parts
  obtain ⟨fired, rest, hfired, hsorted, hrest, hheap, hscan⟩ :=
    @scan_ofParts xs ys now hh
  have hrun : (ofParts xs ys).run now =
      some (fired.map TimerEntry.timer, ofParts rest (fired.reverse ++ ys)) :=
    hscan _ (Nat.lt_succ_self _)
  have htimers : (ofParts rest (fired.reverse ++ ys)).timers.Perm (ofParts xs ys).timers := by
    have hsplit : (fired ++ rest).Perm xs := by
      have hlater : xs.filter (now < ·.expired) = xs.filter fun e => !decide (e.expired ≤ now) := by
        simp only [← Int.not_le, decide_not]
      rw [hlater] at hrest
      exact (hfired.append hrest).trans (List.filter_append_perm _ xs)
    calc List.Perm (rest ++ (fired.reverse ++ ys)) (rest ++ (fired ++ ys)) :=
          ((List.reverse_perm fired).append_right ys).append_left rest
      List.Perm _ (fired ++ rest ++ ys) := by
          rw [← List.append_assoc]
          exact List.perm_append_comm.append_right ys
      List.Perm _ (xs ++ ys) := hsplit.append_right ys
  refine ⟨fired, _, hrun, ?_, fun fuel hfuel => ?_⟩
  · constructor
    case due => rwa [active_ofParts]
    case once =>
      have hsub : (xs.filter (·.expired ≤ now)).Sublist (xs ++ ys) :=
        List.filter_sublist.trans (List.sublist_append_left xs ys)
      exact nodup_of_perm hfired (h.distinct.sublist (hsub.map TimerEntry.timer))
    case sorted => exact hsorted
    case active => rwa [active_ofParts, active_ofParts]
    case inactive =>
      rw [inactive_ofParts, inactive_ofParts]
      exact (List.reverse_perm fired).append_right ys
    case timers => exact htimers
    case valid =>
      refine ⟨shaped_ofParts (nodup_of_perm htimers h.distinct), ?_⟩
      rwa [active_ofParts]
  · rw [hrun]
    exact hscan fuel (Int.ofNat_lt.mp hfuel)

/-- Two timers expire at the same time, a third one is due, and a fourth one is
not. -/
theorem run_firesDue_equal_expiries :
    ∃ m : TimerManager,
      m.timers = [⟨0, 10⟩, ⟨1, 20⟩, ⟨2, 10⟩, ⟨3, 40⟩, ⟨4, 0⟩] ∧ m.activedTimers = 4 ∧
        ∃ fired m', m.run 25 = some (fired.map TimerEntry.timer, m') ∧ FiresDue 25 m fired m' ∧
          ∀ fuel, m.activedTimers < (fuel : Nat) → m.scan 25 fuel = m.run 25 :=
  ⟨⟨[⟨0, 10⟩, ⟨1, 20⟩, ⟨2, 10⟩, ⟨3, 40⟩, ⟨4, 0⟩], 4⟩, rfl, rfl,
    run_firesDue ⟨⟨by decide, by decide, by decide⟩, by decide⟩ 25⟩

end TimerManager

end CppRpc
