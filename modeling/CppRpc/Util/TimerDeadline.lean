import CppRpc.Util.TimerRemove

/-!
# The two copies of a deadline

The deadline of a timer stands in its `Timer` object, where `start` and
`time_out` write it, and in its entry, where `enable_timer` does.  The system is
that of `TimerHistory`, without removals, together with the two members of the
`Timer` objects.  A timer may be started and stopped at any time, also while
`run` has collected it and not yet called its `time_out`.

`DeadlinesAgree` is the property: every active entry has the deadline of its
`Timer`, a started timer is active until it is stopped or collected, and no
timer is collected before its deadline.  `enable_timer` leaves an active timer
alone, so it fails when such a timer gets a new deadline, and also when the
loop in `run` pops with no timer active.  `StartsIdle` excludes these steps,
`deadlinesAgree_of_startsIdle` is the result, and `restarted_timer_fires_early`
a run that starts an active timer again.
-/

namespace CppRpc

open Runs BinaryHeap

/-! ## Which entries are active -/

namespace TimerManager

variable {m m' : TimerManager} {t : TimerPtr} {e : TimerEntry}

theorem Shaped.active_addTimer (h : m.Shaped) : (m.addTimer t).active = m.active := by
  obtain ⟨xs, ys, rfl, -⟩ := h.exists_parts
  rw [addTimer_ofParts]
  split
  · rfl
  · rw [active_ofParts, active_ofParts]

theorem mem_activeTimers (h : e ∈ m.active) : e.timer ∈ m.activeTimers := List.mem_map_of_mem h

theorem mem_allTimers (h : e ∈ m.active) : e.timer ∈ m.allTimers :=
  List.mem_map_of_mem (List.mem_of_mem_take h)

/-- A timer has one active entry. -/
theorem Shaped.active_unique (h : m.Shaped) {e' : TimerEntry} (he : e ∈ m.active)
    (he' : e' ∈ m.active) (ht : e.timer = e'.timer) : e = e' :=
  List.inj_on_of_nodup_map h.distinct (List.mem_of_mem_take he) (List.mem_of_mem_take he') ht

/-- `enable_timer` makes one entry active, unless its timer is active already. -/
theorem Shaped.mem_active_enableTimer (h : m.Shaped) (expired : Int) :
    e ∈ (m.enableTimer t expired).active ↔
      e ∈ m.active ∨ e = ⟨t, expired⟩ ∧ t ∈ m.allTimers ∧ t ∉ m.activeTimers := by
  obtain ⟨xs, ys, rfl, hd⟩ := h.exists_parts
  have hall : t ∈ (ofParts xs ys).allTimers ↔
      t ∈ xs.map TimerEntry.timer ∨ t ∈ ys.map TimerEntry.timer := by
    rw [← List.mem_append, ← List.map_append]
    rfl
  rw [List.map_append] at hd
  rw [activeTimers_ofParts, hall]
  rcases enableTimer_cases xs ys t expired with ⟨hnot, heq⟩ | ⟨zs, hzs, heq⟩
  · rw [heq]
    exact ⟨Or.inl, fun he => he.resolve_right fun hnew => hnot (hnew.2.1.resolve_left hnew.2.2)⟩
  · have hys : t ∈ ys.map TimerEntry.timer := hzs.mem_iff.mp (List.mem_cons_self ..)
    have hxs : t ∉ xs.map TimerEntry.timer := fun hxs => List.disjoint_of_nodup_append hd hxs hys
    rw [heq, active_ofParts, active_ofParts, (pushHeap_perm _ _).mem_iff, List.mem_append,
      List.mem_singleton, and_iff_left ⟨Or.inr hys, hxs⟩]

/-- `disable_timer` makes no entry active, and leaves the entries as they are. -/
theorem Shaped.active_disableTimer (h : m.Shaped) (hm : m.disableTimer t = some m')
    (he : e ∈ m'.active) : e ∈ m.active := by
  obtain ⟨xs, ys, rfl, -⟩ := h.exists_parts
  rcases disableTimer_cases xs ys t with ⟨-, -, heq⟩ | ⟨xs₁, a, xs₂, rest, rfl, -, -, hperm, -, heq⟩
  · cases heq.symm.trans hm
    exact he
  · cases heq.symm.trans hm
    rw [active_ofParts] at he ⊢
    have hmem := hperm.mem_iff (a := e)
    simp only [List.mem_append, List.mem_cons] at he ⊢
    tauto

/-- A turn of the loop in `run` collects an entry that is active and due. -/
theorem Shaped.active_popDue (h : m.Shaped) (hpos : 0 < m.activedTimers) {now : Int}
    {r : Option TimerPtr × TimerManager} (hr : m.popDue now = some r) :
    (∀ e ∈ r.2.active, e ∈ m.active) ∧
      ∀ t, r.1 = some t → ∃ e ∈ m.active, e.timer = t ∧ e.expired ≤ now := by
  obtain ⟨xs, ys, rfl, -⟩ := h.exists_parts
  cases xs with
  | nil => exact absurd hpos (Int.lt_irrefl 0)
  | cons a xs =>
    rcases popDue_cases a xs ys now with ⟨-, heq⟩ | ⟨hdue, rest, hperm, -, heq⟩
    · cases heq.symm.trans hr
      exact ⟨fun _ he => he, nofun⟩
    · cases heq.symm.trans hr
      simp only [active_ofParts]
      refine ⟨fun e he => List.mem_cons_of_mem a (hperm.mem_iff.mp he), fun t ht => ?_⟩
      cases ht
      exact ⟨a, List.mem_cons_self .., rfl, hdue⟩

end TimerManager

/-! ## The system -/

/-- The timers with `m_interals` and `m_expired` of their objects.  `early` is a
history: the timers that were collected before their deadline. -/
structure TimerObjects where
  history : TimerHistory
  interals : TimerPtr → Int
  expired : TimerPtr → Int
  early : List TimerPtr

namespace TimerObjects

inductive Action
  /-- The constructor of a `Timer`. -/
  | construct (timer : TimerPtr)
  | start (timer : TimerPtr) (intervals : Nat) (now : Int)
  | stop (timer : TimerPtr)
  | wake (now : Int)
  | test
  | lock
  | fire
  | returned
  /-- The end of `time_out` for a `CIRCLE` timer. -/
  | timeOut (now : Int)

def new : TimerObjects := ⟨.new, fun _ => -1, fun _ => -1, []⟩

/-- The manager. -/
abbrev manager (s : TimerObjects) : TimerManager := s.history.sys.manager

/-- `Timer::is_time_out`. -/
def isTimeOut (s : TimerObjects) (timer : TimerPtr) (now : Int) : Bool := s.expired timer ≤ now

/-- The timer that `time_out` is about to enable again. -/
def enabling (s : TimerObjects) : Option TimerPtr :=
  match s.history.sys.thread with
  | .enabling timer _ => some timer
  | _ => none

/-- The timer that the next block in the loop of `run` collects before its
deadline. -/
def collectedEarly (s : TimerObjects) : List TimerPtr :=
  match s.history.sys.thread, s.history.sys.collected with
  | .locking now _, some timer => if s.isTimeOut timer now then [] else [timer]
  | _, _ => []

/-- One step. -/
def step (kind : TimerPtr → Timer.Kind) (s : TimerObjects) : Action → Option TimerObjects
  | .construct timer =>
      if timer ∈ s.history.present then none
      else (s.history.step kind (.add timer)).map fun history =>
        { s with
          history
          interals := Function.update s.interals timer (-1)
          expired := Function.update s.expired timer (-1) }
  | .start timer intervals now =>
      if timer ∈ s.history.present then
        (s.history.step kind (.start timer (now + intervals))).map fun history =>
          { s with
            history
            interals := Function.update s.interals timer intervals
            expired := Function.update s.expired timer (now + intervals) }
      else none
  | .stop timer =>
      if timer ∈ s.history.present then
        (s.history.step kind (.stop timer)).map fun history => { s with history }
      else none
  | .timeOut now =>
      match s.enabling with
      | some timer =>
          (s.history.step kind (.enableAgain (now + s.interals timer))).map fun history =>
            { s with
              history
              expired := Function.update s.expired timer (now + s.interals timer) }
      | none => none
  | .lock =>
      (s.history.step kind .lock).map fun history =>
        { s with history, early := s.early ++ s.collectedEarly }
  | .wake now => (s.history.step kind (.wake now)).map fun history => { s with history }
  | .test => (s.history.step kind .test).map fun history => { s with history }
  | .fire => (s.history.step kind .fire).map fun history => { s with history }
  | .returned => (s.history.step kind .returned).map fun history => { s with history }

/-- The property.  The history `enabled` holds the timers that were started and
neither stopped nor collected since. -/
structure DeadlinesAgree (s : TimerObjects) : Prop where
  entries : ∀ e ∈ s.manager.active, e.expired = s.expired e.timer
  started : ∀ t ∈ s.history.enabled, ⟨t, s.expired t⟩ ∈ s.manager.active
  early : s.early = []
  isTimeOut : ∀ e ∈ s.manager.active, ∀ now, s.isTimeOut e.timer now = true ↔ e.expired ≤ now

/-- The timer is not active, or has this deadline already. -/
def Idle (s : TimerObjects) (timer : TimerPtr) (expired : Int) : Prop :=
  ∀ e ∈ s.manager.active, e.timer = timer → e.expired = expired

instance (s : TimerObjects) (timer : TimerPtr) (expired : Int) : Decidable (s.Idle timer expired) :=
  inferInstanceAs (Decidable (∀ e ∈ s.manager.active, _))

/-- The condition on the state before a step: a timer that gets a deadline is
not active, and the loop in `run` pops with an active timer. -/
def StartsIdle (s : TimerObjects) : Action → Prop
  | .start timer intervals now => s.Idle timer (now + intervals)
  | .timeOut now => ∀ timer ∈ s.enabling, s.Idle timer (now + s.interals timer)
  | .lock => s.history.sys.rootDue = true → 0 < s.manager.activedTimers
  | _ => True

instance (s : TimerObjects) : DecidablePred s.StartsIdle
  | .start timer intervals now => inferInstanceAs (Decidable (s.Idle timer (now + intervals)))
  | .timeOut _ => inferInstanceAs (Decidable (∀ timer ∈ s.enabling, s.Idle timer _))
  | .lock => inferInstanceAs (Decidable (_ → _))
  | .construct _ | .stop _ | .wake _ | .test | .fire | .returned => isTrue trivial

/-- The invariant. -/
structure Inv (s : TimerObjects) : Prop where
  history : s.history.Inv
  entries : ∀ e ∈ s.manager.active, e.expired = s.expired e.timer
  early : s.early = []

variable {kind : TimerPtr → Timer.Kind} {s : TimerObjects}

theorem inv_new : new.Inv := ⟨TimerHistory.inv_new, nofun, rfl⟩

theorem Inv.deadlinesAgree (h : s.Inv) : s.DeadlinesAgree where
  entries := h.entries
  started t ht := by
    obtain ⟨e, he, rfl⟩ := List.mem_map.mp ((h.history.enabled_iff t).mp ht)
    rw [← h.entries e he]
    exact he
  early := h.early
  isTimeOut e he now := by
    rw [TimerObjects.isTimeOut, ← h.entries e he, decide_eq_true_iff]

/-- A timer gets a deadline, in `start` or in `time_out`. -/
theorem Inv.enable (h : s.Inv) {t : TimerPtr} {expired : Int} (hidle : s.Idle t expired)
    {history : TimerHistory} (hinv : history.Inv)
    (hm : history.sys.manager = s.manager.enableTimer t expired) (interals : TimerPtr → Int) :
    (⟨history, interals, Function.update s.expired t expired, s.early⟩ : TimerObjects).Inv := by
  refine ⟨hinv, fun e he => ?_, h.early⟩
  have hmem : e ∈ (s.manager.enableTimer t expired).active := hm ▸ he
  rcases (h.history.shaped.mem_active_enableTimer expired).mp hmem with hold | ⟨rfl, -⟩
  · by_cases ht : e.timer = t
    · simp only [ht, Function.update_self]
      exact hidle e hold ht
    · simp only [Function.update_of_ne ht]
      exact h.entries e hold
  · simp only [Function.update_self]

/-- A step that makes no entry active. -/
theorem Inv.keep (h : s.Inv) {history : TimerHistory} (hinv : history.Inv)
    (hsub : ∀ e ∈ history.sys.manager.active, e ∈ s.manager.active) :
    ({ s with history } : TimerObjects).Inv :=
  ⟨hinv, fun e he => h.entries e (hsub e he), h.early⟩

/-- The block in the loop of `run`. -/
theorem Inv.lock (h : s.Inv) (hok : s.StartsIdle .lock) {history : TimerHistory}
    (hs : s.history.step kind .lock = some history) :
    s.collectedEarly = [] ∧ ∀ e ∈ history.sys.manager.active, e ∈ s.manager.active := by
  obtain ⟨sys, hsys, rfl⟩ := Option.map_eq_some_iff.mp hs
  cases hthread : s.history.sys.thread with
  | locking now timers =>
    simp only [TimerSystem.step, hthread] at hsys
    obtain ⟨r, hpop, rfl⟩ := Option.map_eq_some_iff.mp hsys
    have hcollected : s.history.sys.collected = r.1 := by
      rw [TimerSystem.collected, hthread]
      simp [hpop]
    by_cases hdue : s.history.sys.rootDue = true
    · obtain ⟨hsub, hsome⟩ := h.history.shaped.active_popDue (hok hdue) hpop
      refine ⟨?_, hsub⟩
      rw [collectedEarly, hthread, hcollected]
      cases hr : r.1 with
      | none => rfl
      | some t =>
        -- the entry is due, and its timer has the same deadline
        obtain ⟨e, he, rfl, hexpired⟩ := hsome t hr
        rw [h.entries e he] at hexpired
        exact if_pos (decide_eq_true hexpired)
    · obtain rfl := TimerSystem.popDue_of_not_rootDue hthread hdue hpop
      refine ⟨?_, fun e he => he⟩
      rw [collectedEarly, hthread, hcollected]
  | _ => simp [TimerSystem.step, hthread] at hsys

/-- A step of the timer thread that does not lock. -/
theorem Inv.thread (h : s.Inv) {a : TimerSystem.Action} {history : TimerHistory}
    (ha : (∃ now, a = .wake now) ∨ a = .test ∨ a = .fire ∨ a = .returned)
    (hs : s.history.step kind a = some history) : ({ s with history } : TimerObjects).Inv := by
  have hok : s.history.RemovesInactive a := by
    rcases ha with ⟨now, rfl⟩ | rfl | rfl | rfl <;> trivial
  have hm : history.sys.manager = s.history.sys.manager := by
    obtain ⟨sys, hsys, rfl⟩ := Option.map_eq_some_iff.mp hs
    rcases ha with ⟨now, rfl⟩ | rfl | rfl | rfl
    all_goals
      simp only [TimerSystem.step] at hsys
      split at hsys <;> cases hsys
      all_goals rfl
  apply h.keep (h.history.step hok hs)
  rw [hm]
  exact fun e he => he

theorem Inv.step (h : s.Inv) {a : Action} (hok : s.StartsIdle a) {s' : TimerObjects}
    (hs : s.step kind a = some s') : s'.Inv := by
  cases a with
  | construct t =>
    obtain ⟨hnew, hs⟩ := Option.ite_none_left_eq_some.mp hs
    obtain ⟨history, hhistory, rfl⟩ := Option.map_eq_some_iff.mp hs
    have hinv := h.history.step (a := .add t) trivial hhistory
    cases hhistory
    refine ⟨hinv, fun e he => ?_, h.early⟩
    have hactive : e ∈ s.manager.active := by
      rw [← h.history.shaped.active_addTimer (t := t)]
      exact he
    have hne : e.timer ≠ t := by
      intro ht
      exact hnew (ht ▸ (h.history.present_iff _).mpr (TimerManager.mem_allTimers hactive))
    exact (h.entries e hactive).trans (Function.update_of_ne hne ..).symm
  | start t intervals now =>
    obtain ⟨-, hs⟩ := Option.ite_none_right_eq_some.mp hs
    obtain ⟨history, hhistory, rfl⟩ := Option.map_eq_some_iff.mp hs
    have hinv := h.history.step (a := .start t (now + intervals)) trivial hhistory
    cases hhistory
    exact h.enable hok hinv rfl _
  | stop t =>
    obtain ⟨-, hs⟩ := Option.ite_none_right_eq_some.mp hs
    obtain ⟨history, hhistory, rfl⟩ := Option.map_eq_some_iff.mp hs
    have hinv := h.history.step (a := .stop t) trivial hhistory
    obtain ⟨sys, hsys, rfl⟩ := Option.map_eq_some_iff.mp hhistory
    obtain ⟨m, hm, rfl⟩ := Option.map_eq_some_iff.mp hsys
    exact h.keep hinv fun e he => h.history.shaped.active_disableTimer hm he
  | timeOut now =>
    cases hthread : s.history.sys.thread with
    | enabling t timers =>
      have henabling : s.enabling = some t := by rw [enabling, hthread]
      simp only [TimerObjects.step, henabling] at hs
      obtain ⟨history, hhistory, rfl⟩ := Option.map_eq_some_iff.mp hs
      have hinv := h.history.step (a := .enableAgain (now + s.interals t)) trivial hhistory
      obtain ⟨sys, hsys, rfl⟩ := Option.map_eq_some_iff.mp hhistory
      simp only [TimerSystem.step, hthread] at hsys
      cases hsys
      exact h.enable (hok t henabling) hinv (by rw [hthread]) _
    | _ => simp [TimerObjects.step, enabling, hthread] at hs
  | lock =>
    obtain ⟨history, hhistory, rfl⟩ := Option.map_eq_some_iff.mp hs
    obtain ⟨hearly, hsub⟩ := h.lock hok hhistory
    have hinv := h.history.step (a := .lock) hok hhistory
    rw [hearly, List.append_nil]
    exact h.keep hinv hsub
  | wake now =>
    obtain ⟨history, hhistory, rfl⟩ := Option.map_eq_some_iff.mp hs
    exact h.thread (Or.inl ⟨now, rfl⟩) hhistory
  | test | fire | returned =>
    obtain ⟨history, hhistory, rfl⟩ := Option.map_eq_some_iff.mp hs
    exact h.thread (by simp) hhistory

/-- A started timer is active with its new deadline, unless it is active with
another one. -/
theorem Inv.started_iff (h : s.Inv) {t : TimerPtr} {intervals : Nat} {now : Int}
    {s' : TimerObjects} (hs : s.step kind (.start t intervals now) = some s') :
    ⟨t, now + intervals⟩ ∈ s'.manager.active ↔ s.StartsIdle (.start t intervals now) := by
  obtain ⟨hpresent, hs⟩ := Option.ite_none_right_eq_some.mp hs
  obtain ⟨history, hhistory, rfl⟩ := Option.map_eq_some_iff.mp hs
  cases hhistory
  have hall := (h.history.present_iff t).mp hpresent
  show ⟨t, now + intervals⟩ ∈ (s.manager.enableTimer t (now + intervals)).active ↔ _
  rw [h.history.shaped.mem_active_enableTimer]
  constructor
  · intro hmem e he ht
    rcases hmem with hmem | ⟨-, -, hnot⟩
    · rw [h.history.shaped.active_unique he hmem ht]
    · exact absurd (ht ▸ TimerManager.mem_activeTimers he) hnot
  · intro hidle
    by_cases hactive : t ∈ s.manager.activeTimers
    · obtain ⟨e, he, rfl⟩ := List.mem_map.mp hactive
      have hexpired : e.expired = now + intervals := hidle e he rfl
      exact Or.inl (hexpired ▸ he)
    · exact Or.inr ⟨rfl, hall, hactive⟩

/-- In every run that gives deadlines to inactive timers only, and pops active
ones, the manager and the timers agree.  In every state of such a run, a `start`
has its effect exactly when it meets the condition. -/
theorem deadlinesAgree_of_startsIdle (h : ReachableIf (step kind) StartsIdle new s) :
    s.DeadlinesAgree ∧ ∀ t intervals now s', s.step kind (.start t intervals now) = some s' →
      (⟨t, now + intervals⟩ ∈ s'.manager.active ↔ s.StartsIdle (.start t intervals now)) := by
  have hinv : s.Inv := by
    apply h.invariant inv_new
    intro s a s' hs hok hstep
    exact hs.step hok hstep
  exact ⟨hinv.deadlinesAgree, fun t intervals now s' => hinv.started_iff⟩

/-- A timer fires and is enabled again, and another one is stopped and started
again. -/
theorem deadlinesAgree_of_startsIdle_two_timers :
    ∃ s : TimerObjects, (s.manager.active = [⟨0, 25⟩, ⟨1, 50⟩] ∧ s.expired 1 = 50) ∧
      s.DeadlinesAgree ∧ ∀ t intervals now s',
        s.step (fun _ => .CIRCLE) (.start t intervals now) = some s' →
          (⟨t, now + intervals⟩ ∈ s'.manager.active ↔ s.StartsIdle (.start t intervals now)) := by
  obtain ⟨s, hs, hP⟩ : ∃ s, ReachableIf (step fun _ => .CIRCLE) StartsIdle new s ∧
      (s.manager.active = [⟨0, 25⟩, ⟨1, 50⟩] ∧ s.expired 1 = 50) :=
    exists_reachable_of_run
      [.construct 0, .construct 1, .start 0 10 0, .start 1 40 0, .stop 1, .wake 15, .test, .lock,
        .test, .start 1 40 10, .fire, .returned, .timeOut 15, .fire]
      (by decide +kernel)
  exact ⟨s, hP, deadlinesAgree_of_startsIdle hs⟩

/-- A timer with the deadline 10 is started again at 5, for 100.  Its entry
keeps the deadline 10, and a scan at 15 collects it. -/
theorem restarted_timer_fires_early :
    ∃ s, Reachable (step fun _ => .ONCE) new s ∧ ¬ s.DeadlinesAgree := by
  obtain ⟨s, hs, hearly⟩ : ∃ s, Reachable (step fun _ => .ONCE) new s ∧ s.early = [0] :=
    exists_reachable_of_run
      [.construct 0, .start 0 10 0, .start 0 100 5, .wake 15, .test, .lock]
      (by decide +kernel)
  refine ⟨s, hs, fun h => ?_⟩
  rw [h.early] at hearly
  cases hearly

end TimerObjects

end CppRpc
