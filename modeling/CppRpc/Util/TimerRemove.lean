import CppRpc.Util.TimerQuiet

/-!
# `m_actived_timers` and the two blocks of `remove_timer`

The timer thread and any number of threads, as in `TimerSystem`, against what
the operations are for: `present` holds the timers added and not removed since,
and `enabled` those of them that have been enabled and neither disabled nor
collected since.

`CounterExact` is the property: the counter stays in the vector, and with no
`remove_timer` under way the active entries are the enabled timers, so that a
timer that is added and enabled next becomes active.  It fails when a timer is
enabled again between the two blocks of `remove_timer`, since the second block
erases an active entry and leaves the counter alone, and when the loop in `run`
pops with no timer active.  `RemovesInactive` excludes these steps,
`counterExact_of_removesInactive` is the result, and `counter_passes_the_end`
a run with the first of them.
-/

namespace CppRpc

open Runs BinaryHeap

/-! ## Which timers are in the vector -/

namespace TimerManager

/-- The timers of all entries. -/
def allTimers (m : TimerManager) : List TimerPtr := m.timers.map TimerEntry.timer

variable {m : TimerManager} {t u : TimerPtr}

theorem mem_addTimer : u ∈ (m.addTimer t).allTimers ↔ u ∈ m.allTimers ∨ u = t := by
  unfold addTimer allTimers
  split
  · rename_i hany
    obtain ⟨e, he, ht⟩ := List.any_eq_true.mp hany
    refine ⟨Or.inl, ?_⟩
    rintro (hu | rfl)
    · exact hu
    · exact List.mem_map.mpr ⟨e, he, by simpa using ht⟩
  · simp

theorem Shaped.mem_disableTimer (h : m.Shaped) {m' : TimerManager}
    (hm : m.disableTimer t = some m') : u ∈ m'.allTimers ↔ u ∈ m.allTimers := by
  obtain ⟨xs, ys, rfl, -⟩ := h.exists_parts
  rcases disableTimer_cases xs ys t with ⟨-, -, heq⟩ | ⟨xs₁, a, xs₂, rest, rfl, -, -, hperm, -, heq⟩
  · cases heq.symm.trans hm
    rfl
  · cases heq.symm.trans hm
    exact ((perm_pop hperm).map TimerEntry.timer).mem_iff

theorem Shaped.mem_enableTimer (h : m.Shaped) (expired : Int) :
    (u ∈ (m.enableTimer t expired).allTimers ↔ u ∈ m.allTimers) ∧
      (u ∈ (m.enableTimer t expired).activeTimers ↔
        u ∈ m.activeTimers ∨ u = t ∧ t ∈ m.allTimers) := by
  obtain ⟨xs, ys, rfl, -⟩ := h.exists_parts
  have hall : (ofParts xs ys).allTimers = xs.map TimerEntry.timer ++ ys.map TimerEntry.timer :=
    List.map_append
  rcases enableTimer_cases xs ys t expired with ⟨hnot, heq⟩ | ⟨zs, hzs, heq⟩
  · rw [heq, hall, activeTimers_ofParts]
    refine ⟨Iff.rfl, Or.inl, ?_⟩
    rintro (hu | ⟨rfl, hu⟩)
    · exact hu
    · exact (List.mem_append.mp hu).resolve_right hnot
  · have hpush := (pushHeap_perm TimerEntry.expired (xs ++ [⟨t, expired⟩])).map TimerEntry.timer
    have hall' : (ofParts (pushHeap TimerEntry.expired (xs ++ [⟨t, expired⟩])) zs).allTimers =
        (pushHeap TimerEntry.expired (xs ++ [⟨t, expired⟩])).map TimerEntry.timer ++
          zs.map TimerEntry.timer := List.map_append
    have ht : t ∈ ys.map TimerEntry.timer := hzs.mem_iff.mp (List.mem_cons_self ..)
    have hzs' := @List.Perm.mem_iff _ u _ _ hzs
    rw [heq, hall, hall', activeTimers_ofParts, activeTimers_ofParts]
    simp only [List.mem_append, hpush.mem_iff, List.map_append, List.map_cons, List.map_nil,
      ← hzs', List.mem_cons, ht, or_true, and_true]
    tauto

theorem Shaped.mem_eraseTimer (h : m.Shaped) :
    u ∈ (m.eraseTimer t).allTimers ↔ u ∈ m.allTimers ∧ u ≠ t := by
  have herase : (m.eraseTimer t).allTimers = m.allTimers.erase t := by
    rw [List.erase_eq_eraseP', allTimers, allTimers, List.eraseP_map]
    rfl
  have hnodup : m.allTimers.Nodup := h.distinct
  rw [herase, hnodup.mem_erase_iff]
  exact and_comm

theorem Shaped.mem_popDue (h : m.Shaped) (hpos : 0 < m.activedTimers) {now : Int}
    {r : Option TimerPtr × TimerManager} (hr : m.popDue now = some r) :
    u ∈ r.2.allTimers ↔ u ∈ m.allTimers := by
  obtain ⟨xs, ys, rfl, -⟩ := h.exists_parts
  cases xs with
  | nil => exact absurd hpos (Int.lt_irrefl 0)
  | cons a xs =>
    rcases popDue_cases a xs ys now with ⟨-, heq⟩ | ⟨-, rest, hperm, -, heq⟩
    · cases heq.symm.trans hr
      rfl
    · cases heq.symm.trans hr
      exact ((@perm_pop ys [] xs rest a hperm).map TimerEntry.timer).mem_iff

end TimerManager

/-! ## The system -/

/-- The timer that the next block in the loop of `run` collects. -/
def TimerSystem.collected (s : TimerSystem) : Option TimerPtr :=
  match s.thread with
  | .locking now _ => (s.manager.popDue now).bind (·.1)
  | _ => none

/-- The timers of one manager with two histories. -/
structure TimerHistory where
  sys : TimerSystem
  present : List TimerPtr
  enabled : List TimerPtr

namespace TimerHistory

open TimerSystem (Action)

def new : TimerHistory := ⟨.new, [], []⟩

/-- A timer that is not in the manager is not enabled. -/
def enable (s : TimerHistory) (timer : TimerPtr) : List TimerPtr :=
  if timer ∈ s.present then timer :: s.enabled else s.enabled

/-- One step. -/
def step (kind : TimerPtr → Timer.Kind) (s : TimerHistory) (a : Action) : Option TimerHistory :=
  (s.sys.step kind a).map fun sys =>
    match a with
    | .add timer => { s with sys, present := timer :: s.present }
    | .start timer _ => { s with sys, enabled := s.enable timer }
    | .enableAgain _ =>
        match s.sys.thread with
        | .enabling timer _ => { s with sys, enabled := s.enable timer }
        | _ => { s with sys }
    | .stop timer | .removeDisable timer =>
        { s with sys, enabled := s.enabled.filter (· ≠ timer) }
    | .removeErase timer =>
        { sys
          present := s.present.filter (· ≠ timer)
          enabled := s.enabled.filter (· ≠ timer) }
    | .lock => { s with sys, enabled := s.enabled.filter (some · ≠ s.sys.collected) }
    | .wake _ | .test | .fire | .returned => { s with sys }

/-- The property. -/
structure CounterExact (s : TimerHistory) : Prop where
  actived_le : s.sys.manager.activedTimers ≤ s.sys.manager.timers.length
  active_iff : s.sys.removing = [] → ∀ t, t ∈ s.sys.manager.activeTimers ↔ t ∈ s.enabled
  distinct : s.sys.removing = [] → s.sys.manager.activeTimers.Nodup
  next_found : s.sys.removing = [] →
    ∀ t expired, t ∈ ((s.sys.manager.addTimer t).enableTimer t expired).activeTimers

/-- The condition on the state before a step: `remove_timer` erases a timer that
is not active, and the loop in `run` pops with an active timer. -/
def RemovesInactive (s : TimerHistory) : Action → Prop
  | .removeErase timer => timer ∉ s.sys.manager.activeTimers
  | .lock => s.sys.rootDue = true → 0 < s.sys.manager.activedTimers
  | _ => True

instance (s : TimerHistory) : DecidablePred s.RemovesInactive
  | .removeErase _ => inferInstanceAs (Decidable (_ ∉ _))
  | .lock => inferInstanceAs (Decidable (_ → _))
  | .wake _ | .test | .fire | .returned | .enableAgain _ | .add _ | .start _ _ | .stop _
  | .removeDisable _ => isTrue trivial

/-- The invariant. -/
structure Inv (s : TimerHistory) : Prop where
  shaped : s.sys.manager.Shaped
  present_iff : ∀ t, t ∈ s.present ↔ t ∈ s.sys.manager.allTimers
  enabled_iff : ∀ t, t ∈ s.enabled ↔ t ∈ s.sys.manager.activeTimers

variable {kind : TimerPtr → Timer.Kind} {s : TimerHistory}

theorem inv_new : new.Inv :=
  ⟨@TimerManager.shaped_ofParts [] [] List.nodup_nil, fun _ => Iff.rfl, fun _ => Iff.rfl⟩

theorem Inv.counterExact (h : s.Inv) : s.CounterExact := by
  refine ⟨h.shaped.actived_le, fun _ t => (h.enabled_iff t).symm, fun _ => ?_, fun _ t e => ?_⟩
  · obtain ⟨xs, ys, hm, hd⟩ := h.shaped.exists_parts
    rw [hm, TimerManager.activeTimers_ofParts]
    rw [List.map_append] at hd
    exact hd.of_append_left
  · obtain ⟨hshaped, -⟩ := h.shaped.addTimer t
    rw [(hshaped.mem_enableTimer e).2]
    exact Or.inr ⟨rfl, TimerManager.mem_addTimer.mpr (Or.inr rfl)⟩

/-- `enable_timer`, by a caller or by the timer thread. -/
theorem Inv.enable (h : s.Inv) (timer : TimerPtr) (expired : Int) {sys : TimerSystem}
    (hm : sys.manager = s.sys.manager.enableTimer timer expired) :
    ({ s with sys, enabled := s.enable timer } : TimerHistory).Inv := by
  obtain ⟨hshaped, -⟩ := h.shaped.enableTimer timer expired
  refine ⟨?_, fun t => ?_, fun t => ?_⟩ <;> dsimp only <;> rw [hm]
  · exact hshaped
  · rw [(h.shaped.mem_enableTimer expired).1]
    exact h.present_iff t
  · rw [(h.shaped.mem_enableTimer expired).2, ← h.enabled_iff, ← h.present_iff, TimerHistory.enable]
    split
    · rename_i hpresent
      simp only [List.mem_cons, hpresent, and_true, or_comm]
    · rename_i hpresent
      simp [hpresent]

/-- `disable_timer`. -/
theorem Inv.disable (h : s.Inv) {timer : TimerPtr} {sys : TimerSystem}
    (hm : s.sys.manager.disableTimer timer = some sys.manager) :
    ({ s with sys, enabled := s.enabled.filter (· ≠ timer) } : TimerHistory).Inv := by
  obtain ⟨m, hm', hshaped, hactive⟩ := h.shaped.disableTimer timer
  obtain rfl : sys.manager = m := Option.some.inj (hm.symm.trans hm')
  refine ⟨hshaped, fun t => ?_, fun t => ?_⟩ <;> dsimp only
  · rw [h.shaped.mem_disableTimer hm]
    exact h.present_iff t
  · rw [hactive, List.mem_filter, h.enabled_iff, decide_eq_true_iff]

/-- The second block of `remove_timer`, for an inactive timer. -/
theorem Inv.erase (h : s.Inv) {timer : TimerPtr} (hok : timer ∉ s.sys.manager.activeTimers)
    {sys : TimerSystem} (hm : sys.manager = s.sys.manager.eraseTimer timer) :
    (⟨sys, s.present.filter (· ≠ timer), s.enabled.filter (· ≠ timer)⟩ : TimerHistory).Inv := by
  obtain ⟨hshaped, hactive⟩ := h.shaped.eraseTimer hok
  refine ⟨?_, fun t => ?_, fun t => ?_⟩ <;> dsimp only <;> rw [hm]
  · exact hshaped
  · rw [h.shaped.mem_eraseTimer, List.mem_filter, h.present_iff, decide_eq_true_iff]
  · rw [hactive, List.mem_filter, h.enabled_iff, decide_eq_true_iff]
    refine ⟨And.left, fun ht => ⟨ht, ?_⟩⟩
    rintro rfl
    exact hok ht

/-- The block in the loop of `run`. -/
theorem Inv.lock (h : s.Inv) (hok : s.RemovesInactive .lock) {s' : TimerHistory}
    (hs : s.step kind .lock = some s') : s'.Inv := by
  obtain ⟨sys, hsys, rfl⟩ := Option.map_eq_some_iff.mp hs
  cases hthread : s.sys.thread with
  | locking now timers =>
    simp only [TimerSystem.step, hthread] at hsys
    obtain ⟨r, hpop, rfl⟩ := Option.map_eq_some_iff.mp hsys
    have hcollected : s.sys.collected = r.1 := by
      rw [TimerSystem.collected, hthread]
      simp [hpop]
    by_cases hdue : s.sys.rootDue = true
    · have hpos := hok hdue
      obtain ⟨r', hpop', hshaped, hnone, hsome⟩ := h.shaped.popDue hpos now
      obtain rfl : r' = r := Option.some.inj (hpop'.symm.trans hpop)
      refine ⟨hshaped, fun t => ?_, fun t => ?_⟩ <;> dsimp only
      · rw [h.shaped.mem_popDue hpos hpop]
        exact h.present_iff t
      · rw [hcollected, List.mem_filter, h.enabled_iff, decide_eq_true_iff]
        cases hr : r'.1 with
        | none => simp [hnone hr]
        | some timer =>
          rw [(hsome timer hr).2.2 t]
          simp
    · obtain rfl := TimerSystem.popDue_of_not_rootDue hthread hdue hpop
      refine ⟨h.shaped, h.present_iff, fun t => ?_⟩
      rw [hcollected, List.mem_filter, h.enabled_iff]
      simp
  | _ => simp [TimerSystem.step, hthread] at hsys

/-- A step that leaves the manager alone. -/
theorem Inv.move (h : s.Inv) {sys : TimerSystem} (hm : sys.manager = s.sys.manager) :
    ({ s with sys } : TimerHistory).Inv := by
  refine ⟨?_, ?_, ?_⟩ <;> dsimp only <;> rw [hm]
  · exact h.shaped
  · exact h.present_iff
  · exact h.enabled_iff

theorem Inv.step (h : s.Inv) {a : Action} (hok : s.RemovesInactive a) {s' : TimerHistory}
    (hs : s.step kind a = some s') : s'.Inv := by
  cases a with
  | lock => exact h.lock hok hs
  | add timer =>
    cases hs
    obtain ⟨hshaped, hactive⟩ := h.shaped.addTimer timer
    refine ⟨hshaped, fun t => ?_, fun t => ?_⟩ <;> dsimp only
    · rw [TimerManager.mem_addTimer, List.mem_cons, h.present_iff, or_comm]
    · rw [hactive]
      exact h.enabled_iff t
  | start timer expired =>
    cases hs
    exact h.enable timer expired rfl
  | stop timer =>
    obtain ⟨sys, hsys, rfl⟩ := Option.map_eq_some_iff.mp hs
    obtain ⟨m, hm, rfl⟩ := Option.map_eq_some_iff.mp hsys
    exact h.disable hm
  | removeDisable timer =>
    obtain ⟨sys, hsys, rfl⟩ := Option.map_eq_some_iff.mp hs
    obtain ⟨m, hm, rfl⟩ := Option.map_eq_some_iff.mp hsys
    exact h.disable hm
  | removeErase timer =>
    obtain ⟨sys, hsys, rfl⟩ := Option.map_eq_some_iff.mp hs
    simp only [TimerSystem.step] at hsys
    split at hsys
    · cases hsys
      exact h.erase hok rfl
    · cases hsys
  | enableAgain expired =>
    obtain ⟨sys, hsys, rfl⟩ := Option.map_eq_some_iff.mp hs
    cases hthread : s.sys.thread with
    | enabling timer timers =>
      simp only [TimerSystem.step, hthread] at hsys
      cases hsys
      exact h.enable timer expired rfl
    | _ => simp [TimerSystem.step, hthread] at hsys
  | wake _ | test | returned =>
    obtain ⟨sys, hsys, rfl⟩ := Option.map_eq_some_iff.mp hs
    simp only [TimerSystem.step] at hsys
    split at hsys
    · cases hsys
      exact h.move rfl
    · cases hsys
  | fire =>
    obtain ⟨sys, hsys, rfl⟩ := Option.map_eq_some_iff.mp hs
    simp only [TimerSystem.step] at hsys
    split at hsys
    · cases hsys
      exact h.move rfl
    · cases hsys
      exact h.move rfl
    · cases hsys

/-- In every run that erases inactive timers and pops active ones only, the
counter is exact. -/
theorem counterExact_of_removesInactive
    (h : ReachableIf (step kind) RemovesInactive new s) : s.CounterExact :=
  (h.invariant inv_new fun _ _ _ h hok hs => h.step hok hs).counterExact

/-- Two timers, of which one fires and the other is removed. -/
theorem counterExact_of_removesInactive_two_timers :
    ∃ s : TimerHistory, (s.present = [0] ∧ s.enabled = [0]) ∧ s.CounterExact := by
  obtain ⟨s, hs, hP⟩ : ∃ s, ReachableIf (step fun _ => .CIRCLE) RemovesInactive new s ∧
      (s.present = [0] ∧ s.enabled = [0]) :=
    exists_reachable_of_run
      [.add 0, .add 1, .start 0 10, .start 1 20, .wake 15, .test, .lock, .test, .lock, .fire,
        .returned, .enableAgain 25, .removeDisable 1, .removeErase 1]
      (by decide +kernel)
  exact ⟨s, hP, counterExact_of_removesInactive hs⟩

/-- The timer is started between the two blocks of its `remove_timer`: one
timer is active in an empty vector. -/
theorem counter_passes_the_end :
    ∃ s, Reachable (step fun _ => .CIRCLE) new s ∧ ¬ s.CounterExact := by
  obtain ⟨s, hs, hlt⟩ : ∃ s, Reachable (step fun _ => .CIRCLE) new s ∧
      (s.sys.manager.timers.length : Int) < s.sys.manager.activedTimers :=
    exists_reachable_of_run [.add 0, .removeDisable 0, .start 0 10, .removeErase 0]
      (by decide +kernel)
  exact ⟨s, hs, fun h => absurd h.actived_le (Int.not_le.mpr hlt)⟩

end TimerHistory

end CppRpc
