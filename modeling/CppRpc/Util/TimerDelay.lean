import CppRpc.Util.TimerScan

/-!
# A pass of `run` over timers out of order

`disable_timer` can leave the active timers without their order
(`disable_breaks_heap`), and a pass of `run` then stops at the first root that
is not due, with due timers below it.

`FiresLate` is what is left of `FiresDue`: such a pass still ends, calls no
timer early and none twice, loses no entry, and fires every active timer when
all of them are due.  `firesLate_of_reachable` says so of every manager that
any operations lead to, with each of them inside the vector: the lost order
delays timers, and does nothing else.
-/

namespace CppRpc

open BinaryHeap Runs

namespace TimerManager

/-- The property, for the entries `fired` of the collected timers and the
manager `m'` behind the pass. -/
structure FiresLate (now : Int) (m : TimerManager) (fired : List TimerEntry) (m' : TimerManager) :
    Prop where
  due : ∀ e ∈ fired, e.expired ≤ now
  once : (fired.map TimerEntry.timer).Nodup
  split : (fired ++ m'.active).Perm m.active
  inactive : m'.inactive.Perm (fired ++ m.inactive)
  stopped : ∀ root ∈ m'.active.head?, now < root.expired
  all : (∀ e ∈ m.active, e.expired ≤ now) → m'.active = []

variable {m : TimerManager} {xs ys : List TimerEntry} {now : Int}

/-- The pass, on the two parts of the vector, whatever their order. -/
theorem scan_parts (xs ys : List TimerEntry) (now : Int) :
    ∃ fired rest : List TimerEntry, (∀ e ∈ fired, e.expired ≤ now) ∧ (fired ++ rest).Perm xs ∧
      (∀ root ∈ rest.head?, now < root.expired) ∧ ∀ fuel, xs.length < fuel →
        (ofParts xs ys).scan now fuel =
          some (fired.map TimerEntry.timer, ofParts rest (fired.reverse ++ ys)) := by
  induction hn : xs.length generalizing xs ys with
  | zero =>
    obtain rfl := List.eq_nil_of_length_eq_zero hn
    refine ⟨[], [], by simp, .nil, by simp, ?_⟩
    intro fuel hfuel
    obtain ⟨fuel, rfl⟩ := Nat.exists_eq_add_of_lt hfuel
    rfl
  | succ n ih =>
    obtain ⟨a, xs, rfl⟩ := List.exists_cons_of_length_eq_add_one hn
    have hscanning : (ofParts (a :: xs) ys).scanning = true :=
      scanning_ofParts.mpr (List.cons_ne_nil a xs)
    rcases popDue_cases a xs ys now with ⟨hlater, hstop⟩ | ⟨hdue, xs', hperm, -, hpop⟩
    · refine ⟨[], a :: xs, by simp, .refl _, by simpa using hlater, ?_⟩
      intro fuel hfuel
      obtain ⟨fuel, rfl⟩ := Nat.exists_eq_add_of_lt hfuel
      unfold scan
      rw [if_pos hscanning, hstop]
      rfl
    · obtain ⟨fired, rest, hfired, hsplit, hrest, hscan⟩ :=
        ih xs' (a :: ys) (hperm.length_eq.trans (Nat.succ.inj hn))
      refine ⟨a :: fired, rest, ?_, (hsplit.trans hperm).cons a, hrest, ?_⟩
      · intro e he
        rcases List.mem_cons.mp he with rfl | he
        · exact hdue
        · exact hfired e he
      · intro fuel hfuel
        obtain ⟨fuel, rfl⟩ := Nat.exists_eq_add_of_lt hfuel
        unfold scan
        rw [if_pos hscanning, hpop, Option.bind_some]
        dsimp only
        rw [hscan _ (by omega), Option.map_some, List.map_cons, List.reverse_cons,
          List.append_assoc, List.singleton_append]

/-- A pass over a shaped manager. -/
theorem Shaped.firesLate (h : m.Shaped) (now : Int) :
    ∃ fired m', m.run now = some (fired.map TimerEntry.timer, m') ∧ FiresLate now m fired m' ∧
      m'.Shaped ∧ ∀ fuel, m.activedTimers < (fuel : Nat) → m.scan now fuel = m.run now := by
  obtain ⟨xs, ys, rfl, hd⟩ := h.exists_parts
  obtain ⟨fired, rest, hdue, hsplit, hstopped, hscan⟩ := scan_parts xs ys now
  have hrun : (ofParts xs ys).run now =
      some (fired.map TimerEntry.timer, ofParts rest (fired.reverse ++ ys)) :=
    hscan _ (Nat.lt_succ_self _)
  have htimers : (rest ++ (fired.reverse ++ ys)).Perm (xs ++ ys) :=
    calc List.Perm (rest ++ (fired.reverse ++ ys)) (rest ++ (fired ++ ys)) :=
          ((List.reverse_perm fired).append_right ys).append_left rest
      List.Perm _ (fired ++ rest ++ ys) := by
          rw [← List.append_assoc]
          exact List.perm_append_comm.append_right ys
      List.Perm _ (xs ++ ys) := hsplit.append_right ys
  refine ⟨fired, _, hrun, ?_, shaped_ofParts (nodup_of_perm htimers hd), fun fuel hfuel => ?_⟩
  · constructor
    case due => exact hdue
    case once =>
      have hxs := nodup_of_perm hsplit (hd.sublist ((List.sublist_append_left xs ys).map _))
      rw [List.map_append] at hxs
      exact hxs.of_append_left
    case split => rwa [active_ofParts, active_ofParts]
    case inactive =>
      rw [inactive_ofParts, inactive_ofParts]
      exact (List.reverse_perm fired).append_right ys
    case stopped => rwa [active_ofParts]
    case all =>
      rw [active_ofParts, active_ofParts]
      intro hall
      cases rest with
      | nil => rfl
      | cons root rest =>
        have hmem : root ∈ xs := hsplit.mem_iff.mp (by simp)
        exact absurd (hall root hmem) (Int.not_le.mpr (hstopped root rfl))
  · rw [hrun]
    exact hscan fuel (Int.ofNat_lt.mp hfuel)

/-- Every operation stays inside the vector and keeps the shape. -/
theorem Shaped.step (h : m.Shaped) (op : Op) : ∃ m', m.step op = some m' ∧ m'.Shaped := by
  cases op with
  | addTimer t => exact ⟨_, rfl, (h.addTimer t).1⟩
  | removeTimer t =>
    obtain ⟨m₁, heq, h₁, hactive⟩ := h.disableTimer t
    have ht : t ∉ m₁.activeTimers := fun ht => ((hactive t).mp ht).2 rfl
    refine ⟨m₁.eraseTimer t, ?_, (h₁.eraseTimer ht).1⟩
    show (m.disableTimer t).map (·.eraseTimer t) = _
    rw [heq, Option.map_some]
  | enableTimer t expired => exact ⟨_, rfl, (h.enableTimer t expired).1⟩
  | disableTimer t =>
    obtain ⟨m', heq, hm', -⟩ := h.disableTimer t
    exact ⟨m', heq, hm'⟩
  | run now =>
    obtain ⟨fired, m', hrun, -, hm', -⟩ := h.firesLate now
    refine ⟨m', ?_, hm'⟩
    show (m.run now).map (·.2) = _
    rw [hrun, Option.map_some]

/-- From every manager that any operations lead to, in order or not, every
operation stays inside the vector, and a pass of `run` ends, however long the
loop may go on, and fires due timers only, late at worst. -/
theorem firesLate_of_reachable (h : Reachable TimerManager.step new m) :
    (∀ op, (m.step op).isSome) ∧ ∀ now, ∃ fired m',
      m.run now = some (fired.map TimerEntry.timer, m') ∧ FiresLate now m fired m' ∧
        ∀ fuel, m.activedTimers < (fuel : Nat) → m.scan now fuel = m.run now := by
  obtain ⟨hshaped, hsome⟩ := h.invariant_enabled valid_new.toShaped fun m op hm _ => hm.step op
  refine ⟨fun op => hsome op trivial, fun now => ?_⟩
  obtain ⟨fired, m', hrun, hlate, -, hfuel⟩ := hshaped.firesLate now
  exact ⟨fired, m', hrun, hlate, hfuel⟩

/-- A disabled timer leaves timer 5 below timer 3, which is due later.  A pass
at 4 fires one timer, and not timer 5, which is due since 3. -/
theorem firesLate_of_reachable_below_root :
    ∃ m : TimerManager, (∃ r ∈ m.run 4, r.1 = [2] ∧ ⟨5, 3⟩ ∈ r.2.active) ∧
      (∀ op, (m.step op).isSome) ∧ ∀ now, ∃ fired m',
        m.run now = some (fired.map TimerEntry.timer, m') ∧ FiresLate now m fired m' ∧
          ∀ fuel, m.activedTimers < (fuel : Nat) → m.scan now fuel = m.run now := by
  obtain ⟨m, hm, hP⟩ : ∃ m, Reachable TimerManager.step new m ∧
      ∃ r ∈ m.run 4, r.1 = [2] ∧ ⟨5, 3⟩ ∈ r.2.active :=
    exists_reachable_of_run
      [.addTimer 0, .addTimer 1, .addTimer 2, .addTimer 3, .addTimer 4, .addTimer 5, .addTimer 6,
        .enableTimer 0 2, .enableTimer 1 6, .enableTimer 2 0, .enableTimer 3 5, .enableTimer 4 9,
        .enableTimer 5 3, .enableTimer 6 7, .disableTimer 0]
      (by decide +kernel)
  exact ⟨m, hP, firesLate_of_reachable hm⟩

end TimerManager

end CppRpc
