import CppRpc.Lib.Progress
import CppRpc.Util.TimerDeadline
import CppRpc.Util.TimerScan

/-!
# A repeating timer goes on

The timer thread and any number of threads, as in `TimerHistory`, with one more
history: `started` holds the timers that were started and neither stopped nor
removed since, collected or not.

There are three groups.

* The turns of the timer thread.  `TimerSystem.Turn` says everything that one of
  its steps can do.
* No repeating timer is lost.  `Kept` is the property: a `CIRCLE` timer in
  `started` is active, or `run` holds it and will enable it again.  The
  condition is `RemovesInactive`, that of `counterExact_of_removesInactive`.
* A repeating timer fires again.  While nobody starts a timer, or stops or
  removes this one, the timer thread calls its `time_out` within `effort + 1` of
  its own steps, if it reads its clock at the deadline or later.  Here the
  active timers have to be in order, and to stay so: `run` looks at the root
  only.
-/

namespace CppRpc

open BinaryHeap Runs

/-! ## The turns of the timer thread -/

namespace TimerSystem

/-- The steps of the timer thread. -/
def Action.ofThread : Action → Bool
  | .wake _ | .test | .lock | .fire | .returned | .enableAgain _ => true
  | .add _ | .start _ _ | .stop _ | .removeDisable _ | .removeErase _ => false

/-- A step of the timer thread, with the manager and the thread before and
after. -/
inductive Turn (kind : TimerPtr → Timer.Kind) (m m' : TimerManager) (thread thread' : RunThread) :
    Action → Prop
  | wake (now : Int) : thread = .sleeping → thread' = .testing now [] → m' = m →
      Turn kind m m' thread thread' (.wake now)
  | scan (now : Int) (timers : List TimerPtr) : thread = .testing now timers →
      m.scanning = true → thread' = .locking now timers → m' = m →
      Turn kind m m' thread thread' .test
  | scanned (now : Int) (timers : List TimerPtr) : thread = .testing now timers →
      m.scanning = false → thread' = .firing timers → m' = m → Turn kind m m' thread thread' .test
  | collect (now : Int) (timers : List TimerPtr) (timer : TimerPtr) :
      thread = .locking now timers → m.popDue now = some (some timer, m') →
      thread' = .testing now (timers ++ [timer]) → Turn kind m m' thread thread' .lock
  | stop (now : Int) (timers : List TimerPtr) : thread = .locking now timers →
      m.popDue now = some (none, m') → thread' = .firing timers →
      Turn kind m m' thread thread' .lock
  | sleep : thread = .firing [] → thread' = .sleeping → m' = m →
      Turn kind m m' thread thread' .fire
  | call (timer : TimerPtr) (timers : List TimerPtr) : thread = .firing (timer :: timers) →
      thread' = .calling timer timers → m' = m → Turn kind m m' thread thread' .fire
  | again (timer : TimerPtr) (timers : List TimerPtr) : thread = .calling timer timers →
      kind timer = .CIRCLE → thread' = .enabling timer timers → m' = m →
      Turn kind m m' thread thread' .returned
  | once (timer : TimerPtr) (timers : List TimerPtr) : thread = .calling timer timers →
      kind timer ≠ .CIRCLE → thread' = .firing timers → m' = m →
      Turn kind m m' thread thread' .returned
  | enable (timer : TimerPtr) (timers : List TimerPtr) (expired : Int) :
      thread = .enabling timer timers → thread' = .firing timers →
      m' = m.enableTimer timer expired → Turn kind m m' thread thread' (.enableAgain expired)

variable {kind : TimerPtr → Timer.Kind} {s s' : TimerSystem} {a : Action}

theorem turn_of_step (ha : a.ofThread = true) (hs : s.step kind a = some s') :
    Turn kind s.manager s'.manager s.thread s'.thread a := by
  cases a with
  | wake now =>
    simp only [step] at hs
    split at hs
    · rename_i hthread
      cases hs
      exact .wake now hthread rfl rfl
    · cases hs
  | test =>
    simp only [step] at hs
    split at hs
    · rename_i now timers hthread
      cases hs
      cases hscan : s.manager.scanning with
      | true => exact .scan now timers hthread hscan (by simp) rfl
      | false => exact .scanned now timers hthread hscan (by simp) rfl
    · cases hs
  | lock =>
    simp only [step] at hs
    split at hs
    · rename_i now timers hthread
      obtain ⟨⟨collected, m⟩, hpop, rfl⟩ := Option.map_eq_some_iff.mp hs
      cases collected with
      | none => exact .stop now timers hthread hpop rfl
      | some timer => exact .collect now timers timer hthread hpop rfl
    · cases hs
  | fire =>
    simp only [step] at hs
    split at hs
    · rename_i hthread
      cases hs
      exact .sleep hthread rfl rfl
    · rename_i timer timers hthread
      cases hs
      exact .call timer timers hthread rfl rfl
    · cases hs
  | returned =>
    simp only [step] at hs
    split at hs
    · rename_i timer timers hthread
      cases hs
      by_cases hkind : kind timer = .CIRCLE
      · exact .again timer timers hthread hkind (by simp [hkind]) rfl
      · exact .once timer timers hthread hkind (by simp [hkind]) rfl
    · cases hs
  | enableAgain expired =>
    simp only [step] at hs
    split at hs
    · rename_i timer timers hthread
      cases hs
      exact .enable timer timers expired hthread rfl rfl
    · cases hs
  | add | start | stop | removeDisable | removeErase => exact absurd ha Bool.false_ne_true

end TimerSystem

/-! ## No repeating timer is lost -/

/-- A turn of the loop that collects nothing. -/
theorem TimerManager.popDue_none {m m' : TimerManager} {now : Int}
    (h : m.popDue now = some (none, m')) : m' = m := by
  unfold popDue at h
  split at h
  · cases h
  · split at h
    · split at h <;> cases h
    · cases h
      rfl

/-- The timers with the history `started`. -/
structure TimerRepeats where
  history : TimerHistory
  started : List TimerPtr

namespace TimerRepeats

open TimerSystem (Action Turn turn_of_step)

def new : TimerRepeats := ⟨.new, []⟩

/-- The manager. -/
abbrev manager (s : TimerRepeats) : TimerManager := s.history.sys.manager

/-- The timer thread. -/
abbrev thread (s : TimerRepeats) : RunThread := s.history.sys.thread

/-- The history after a step.  A timer that is not in the manager cannot be
started. -/
def startedAfter (s : TimerRepeats) : Action → List TimerPtr
  | .start timer _ => if timer ∈ s.history.present then timer :: s.started else s.started
  | .stop timer | .removeDisable timer | .removeErase timer => s.started.filter (· ≠ timer)
  | .wake _ | .test | .lock | .fire | .returned | .enableAgain _ | .add _ => s.started

/-- One step. -/
def step (kind : TimerPtr → Timer.Kind) (s : TimerRepeats) (a : Action) : Option TimerRepeats :=
  (s.history.step kind a).map fun history => ⟨history, s.startedAfter a⟩

/-- The property. -/
def Kept (kind : TimerPtr → Timer.Kind) (s : TimerRepeats) : Prop :=
  ∀ t ∈ s.started, kind t = .CIRCLE → t ∈ s.manager.activeTimers ∨ t ∈ s.thread.holds kind

/-- The condition on the state before a step. -/
def RemovesInactive (s : TimerRepeats) (a : Action) : Prop := s.history.RemovesInactive a

instance (s : TimerRepeats) : DecidablePred s.RemovesInactive := fun a =>
  inferInstanceAs (Decidable (s.history.RemovesInactive a))

/-- The invariant. -/
structure Inv (kind : TimerPtr → Timer.Kind) (s : TimerRepeats) : Prop where
  history : s.history.Inv
  present : ∀ t ∈ s.started, t ∈ s.history.present
  kept : s.Kept kind

variable {kind : TimerPtr → Timer.Kind} {s s' : TimerRepeats} {a : Action}

theorem inv_new : new.Inv kind := ⟨TimerHistory.inv_new, nofun, nofun⟩

/-- What a step of the timer thread leaves alone. -/
theorem frame_of_ofThread (ha : a.ofThread = true) (hs : s.step kind a = some s') :
    Turn kind s.manager s'.manager s.thread s'.thread a ∧ s'.started = s.started ∧
      s'.history.present = s.history.present := by
  obtain ⟨history, hhistory, rfl⟩ := Option.map_eq_some_iff.mp hs
  obtain ⟨sys, hsys, hmap⟩ := Option.map_eq_some_iff.mp hhistory
  have hframe : history.sys = sys ∧ history.present = s.history.present := by
    rw [← hmap]
    cases a with
    | enableAgain expired =>
      dsimp only
      split <;> exact ⟨rfl, rfl⟩
    | wake | test | lock | fire | returned => exact ⟨rfl, rfl⟩
    | _ => exact absurd ha Bool.false_ne_true
  obtain ⟨rfl, hpresent⟩ := hframe
  refine ⟨turn_of_step ha hsys, ?_, hpresent⟩
  cases a with
  | wake | test | lock | fire | returned | enableAgain => rfl
  | _ => exact absurd ha Bool.false_ne_true

/-- A timer is collected while one is active. -/
theorem pos_of_collect {now : Int} {timers : List TimerPtr} {timer : TimerPtr} {m : TimerManager}
    (hthread : s.thread = .locking now timers)
    (hpop : s.manager.popDue now = some (some timer, m)) (hok : s.RemovesInactive .lock) :
    0 < s.manager.activedTimers := by
  apply hok
  by_contra hdue
  have hnone := TimerSystem.popDue_of_not_rootDue hthread hdue hpop
  cases (Prod.mk.inj hnone).1

/-- A step of the timer thread keeps each timer active or held. -/
theorem Inv.kept_of_turn (h : s.Inv kind) (hok : s.RemovesInactive a)
    (hturn : Turn kind s.manager s'.manager s.thread s'.thread a) {t : TimerPtr}
    (ht : t ∈ s.started) (hkind : kind t = .CIRCLE) :
    t ∈ s'.manager.activeTimers ∨ t ∈ s'.thread.holds kind := by
  have hkept := h.kept t ht hkind
  cases hturn with
  | wake now hthread hthread' hm =>
    rw [hthread] at hkept
    rw [hm]
    exact hkept.imp_right fun hmem => absurd hmem List.not_mem_nil
  | scan now timers hthread _ hthread' hm =>
    rw [hthread] at hkept
    rw [hm, hthread']
    exact hkept
  | scanned now timers hthread _ hthread' hm =>
    rw [hthread] at hkept
    rw [hm, hthread']
    exact hkept
  | collect now timers timer hthread hpop hthread' =>
    have hpos := pos_of_collect hthread hpop hok
    obtain ⟨r, hr, -, -, hsome⟩ := h.history.shaped.popDue hpos now
    obtain rfl := Option.some.inj (hr.symm.trans hpop)
    obtain ⟨-, -, hactive⟩ := hsome timer rfl
    rw [hthread] at hkept
    rw [hthread']
    rcases hkept with hmem | hmem
    · by_cases heq : t = timer
      · exact Or.inr (List.mem_append_right _ (List.mem_singleton.mpr heq))
      · exact Or.inl ((hactive t).mpr ⟨hmem, heq⟩)
    · exact Or.inr (List.mem_append_left _ hmem)
  | stop now timers hthread hpop hthread' =>
    rw [hthread] at hkept
    rw [TimerManager.popDue_none hpop, hthread']
    exact hkept
  | sleep hthread hthread' hm =>
    rw [hthread] at hkept
    rw [hm]
    exact hkept.imp_right fun hmem => absurd hmem List.not_mem_nil
  | call timer timers hthread hthread' hm =>
    rw [hthread] at hkept
    rw [hm, hthread', RunThread.holds_calling]
    refine hkept.imp_right fun hmem => ?_
    rcases List.mem_cons.mp hmem with rfl | hmem
    · rw [if_pos hkind]
      exact List.mem_cons_self ..
    · split
      · exact List.mem_cons_of_mem _ hmem
      · exact hmem
  | again timer timers hthread htimer hthread' hm =>
    rw [hthread, RunThread.holds_calling, if_pos htimer] at hkept
    rw [hm, hthread']
    exact hkept
  | once timer timers hthread htimer hthread' hm =>
    rw [hthread, RunThread.holds_calling, if_neg htimer] at hkept
    rw [hm, hthread']
    exact hkept
  | enable timer timers expired hthread hthread' hm =>
    have hall := (h.history.present_iff t).mp (h.present t ht)
    rw [hthread] at hkept
    rw [hm, hthread', (h.history.shaped.mem_enableTimer expired).2]
    rcases hkept with hmem | hmem
    · exact Or.inl (Or.inl hmem)
    · rcases List.mem_cons.mp hmem with rfl | hmem
      · exact Or.inl (Or.inr ⟨rfl, hall⟩)
      · exact Or.inr hmem

theorem mem_startedAfter_start {t timer : TimerPtr} (expired : Int)
    (ht : t ∈ s.startedAfter (.start timer expired)) :
    t ∈ s.started ∨ t = timer ∧ timer ∈ s.history.present := by
  simp only [startedAfter] at ht
  split at ht
  · rename_i hpresent
    rcases List.mem_cons.mp ht with heq | ht
    · exact Or.inr ⟨heq, hpresent⟩
    · exact Or.inl ht
  · exact Or.inl ht

/-- A timer leaves the active ones and the started ones. -/
theorem Inv.disable (h : s.Inv kind) {timer : TimerPtr} {history : TimerHistory}
    (hinv : history.Inv) (hpresent : history.present = s.history.present)
    (hthread : history.sys.thread = s.thread)
    (hm : s.manager.disableTimer timer = some history.sys.manager) :
    (⟨history, s.started.filter (· ≠ timer)⟩ : TimerRepeats).Inv kind := by
  obtain ⟨m, hm', -, hactive⟩ := h.history.shaped.disableTimer timer
  obtain rfl := Option.some.inj (hm'.symm.trans hm)
  refine ⟨hinv, fun t ht => ?_, fun t ht hkind => ?_⟩
  · rw [hpresent]
    exact h.present t (List.mem_of_mem_filter ht)
  · obtain ⟨ht, hne⟩ := List.mem_filter.mp ht
    show _ ∨ t ∈ history.sys.thread.holds kind
    rw [hthread]
    exact (h.kept t ht hkind).imp_left fun hmem => (hactive t).mpr ⟨hmem, by simpa using hne⟩

theorem Inv.step (h : s.Inv kind) (hok : s.RemovesInactive a) (hs : s.step kind a = some s') :
    s'.Inv kind := by
  cases ha : a.ofThread with
  | true =>
    obtain ⟨hturn, hstarted, hpresent⟩ := frame_of_ofThread ha hs
    obtain ⟨history, hhistory, rfl⟩ := Option.map_eq_some_iff.mp hs
    refine ⟨h.history.step hok hhistory, fun t ht => ?_, fun t ht hkind => ?_⟩
    · rw [hstarted] at ht
      rw [hpresent]
      exact h.present t ht
    · rw [hstarted] at ht
      exact h.kept_of_turn hok hturn ht hkind
  | false =>
    obtain ⟨history, hhistory, rfl⟩ := Option.map_eq_some_iff.mp hs
    have hinv := h.history.step hok hhistory
    obtain ⟨sys, hsys, rfl⟩ := Option.map_eq_some_iff.mp hhistory
    cases a with
    | add timer =>
      cases hsys
      refine ⟨hinv, fun t ht => List.mem_cons_of_mem _ (h.present t ht), fun t ht hkind => ?_⟩
      show t ∈ (s.manager.addTimer timer).activeTimers ∨ _
      rw [(h.history.shaped.addTimer timer).2]
      exact h.kept t ht hkind
    | start timer expired =>
      cases hsys
      refine ⟨hinv, fun t ht => ?_, fun t ht hkind => ?_⟩
      · rcases mem_startedAfter_start expired ht with ht | ⟨rfl, hpresent⟩
        · exact h.present t ht
        · exact hpresent
      · show t ∈ (s.manager.enableTimer timer expired).activeTimers ∨ _
        rw [(h.history.shaped.mem_enableTimer expired).2, ← h.history.present_iff]
        rcases mem_startedAfter_start expired ht with ht | hnew
        · exact (h.kept t ht hkind).imp_left Or.inl
        · exact Or.inl (Or.inr hnew)
    | stop timer =>
      obtain ⟨m, hm, rfl⟩ := Option.map_eq_some_iff.mp hsys
      exact h.disable hinv rfl rfl hm
    | removeDisable timer =>
      obtain ⟨m, hm, rfl⟩ := Option.map_eq_some_iff.mp hsys
      exact h.disable hinv rfl rfl hm
    | removeErase timer =>
      simp only [TimerSystem.step] at hsys
      split at hsys
      · cases hsys
        have hactive := (h.history.shaped.eraseTimer hok).2
        refine ⟨hinv, fun t ht => ?_, fun t ht hkind => ?_⟩
        · obtain ⟨ht, hne⟩ := List.mem_filter.mp ht
          exact List.mem_filter.mpr ⟨h.present t ht, hne⟩
        · show t ∈ (s.manager.eraseTimer timer).activeTimers ∨ _
          rw [hactive]
          exact h.kept t (List.mem_of_mem_filter ht) hkind
      · cases hsys
    | wake | test | lock | fire | returned | enableAgain => exact absurd ha Bool.true_eq_false.mp

/-- With a started timer the vector is not empty, so that the timer thread can
always go on. -/
theorem Inv.goesOn (h : s.Inv kind) (hstarted : s.started ≠ []) :
    ∃ a, a.ofThread = true ∧ (s.step kind a).isSome := by
  have hstep : ∀ a, (s.step kind a).isSome = (s.history.sys.step kind a).isSome := by
    intro a
    simp only [TimerRepeats.step, TimerHistory.step, Option.isSome_map]
  simp only [hstep]
  cases hthread : s.history.sys.thread with
  | sleeping => exact ⟨.wake 0, rfl, by simp [TimerSystem.step, hthread]⟩
  | testing now timers => exact ⟨.test, rfl, by simp [TimerSystem.step, hthread]⟩
  | firing timers =>
    refine ⟨.fire, rfl, ?_⟩
    cases timers <;> simp [TimerSystem.step, hthread]
  | calling timer timers => exact ⟨.returned, rfl, by simp [TimerSystem.step, hthread]⟩
  | enabling timer timers => exact ⟨.enableAgain 0, rfl, by simp [TimerSystem.step, hthread]⟩
  | locking now timers =>
    obtain ⟨t, ht⟩ := List.exists_mem_of_ne_nil _ hstarted
    have hall := (h.history.present_iff t).mp (h.present t ht)
    obtain ⟨root, rest, htimers⟩ : ∃ root rest, s.manager.timers = root :: rest := by
      apply List.exists_cons_of_ne_nil
      intro hnil
      rw [TimerManager.allTimers, hnil] at hall
      cases hall
    have hle := h.history.shaped.actived_le
    refine ⟨.lock, rfl, ?_⟩
    simp only [TimerSystem.step, hthread, Option.isSome_map]
    unfold TimerManager.popDue
    rw [htimers] at hle ⊢
    dsimp only
    rw [if_pos hle]
    split <;> rfl

/-- In every run that erases inactive timers and pops active ones only, no
repeating timer is lost, and the timer thread can go on while one is started. -/
theorem kept_of_removesInactive (h : ReachableIf (step kind) RemovesInactive new s) :
    s.Kept kind ∧ (s.started ≠ [] → ∃ a, a.ofThread = true ∧ (s.step kind a).isSome) := by
  have hinv : s.Inv kind := h.invariant inv_new fun _ _ _ h hok hs => h.step hok hs
  exact ⟨hinv.kept, hinv.goesOn⟩

/-- The timer thread has collected the one timer, and the other one is stopped:
no timer is active. -/
theorem kept_of_removesInactive_collected :
    ∃ s : TimerRepeats, (s.started = [0] ∧ s.manager.activeTimers = []) ∧
      s.Kept (fun _ => .CIRCLE) ∧
        (s.started ≠ [] → ∃ a, a.ofThread = true ∧ (s.step (fun _ => .CIRCLE) a).isSome) := by
  obtain ⟨s, hs, hP⟩ : ∃ s, ReachableIf (step fun _ => .CIRCLE) RemovesInactive new s ∧
      (s.started = [0] ∧ s.manager.activeTimers = []) :=
    exists_reachable_of_run
      [.add 0, .add 1, .start 0 10, .start 1 20, .wake 15, .test, .lock, .stop 1]
      (by decide +kernel)
  exact ⟨s, hP, kept_of_removesInactive hs⟩

end TimerRepeats

/-! ## A repeating timer fires again -/

namespace TimerManager

variable {m m' : TimerManager} {t : TimerPtr} {now : Int}

theorem Shaped.active_length (h : m.Shaped) : (m.active.length : Int) = m.activedTimers := by
  obtain ⟨xs, ys, rfl, -⟩ := h.exists_parts
  rw [active_ofParts]
  rfl

theorem Shaped.length_enableTimer_le (h : m.Shaped) (expired : Int) :
    (m.enableTimer t expired).active.length ≤ m.active.length + 1 := by
  obtain ⟨xs, ys, rfl, -⟩ := h.exists_parts
  rcases enableTimer_cases xs ys t expired with ⟨-, heq⟩ | ⟨zs, -, heq⟩
  · rw [heq]
    omega
  · have hpush := pushHeap_perm TimerEntry.expired (xs ++ [⟨t, expired⟩])
    rw [heq, active_ofParts, active_ofParts, hpush.length_eq, List.length_append]
    rfl

theorem Shaped.length_disableTimer_le (h : m.Shaped) (hm : m.disableTimer t = some m') :
    m'.active.length ≤ m.active.length := by
  obtain ⟨xs, ys, rfl, -⟩ := h.exists_parts
  rcases disableTimer_cases xs ys t with ⟨-, -, heq⟩ | ⟨xs₁, a, xs₂, rest, rfl, -, -, hperm, -, heq⟩
  · obtain rfl := Option.some.inj (heq.symm.trans hm)
    exact le_rfl
  · obtain rfl := Option.some.inj (heq.symm.trans hm)
    have hlen := hperm.length_eq
    simp only [active_ofParts, List.length_append, List.length_cons]
    omega

theorem Shaped.active_eraseTimer (h : m.Shaped) (ht : t ∉ m.activeTimers) :
    (m.eraseTimer t).active = m.active := by
  obtain ⟨xs, ys, rfl, -⟩ := h.exists_parts
  rw [activeTimers_ofParts] at ht
  rw [eraseTimer_ofParts ht, active_ofParts, active_ofParts]

/-- The loop in `run` ends at a root that is not due, and then no active timer
is, if they are in order. -/
theorem Valid.later_of_popDue (h : m.Valid) (hpop : m.popDue now = some (none, m'))
    {e : TimerEntry} (he : e ∈ m.active) : now < e.expired := by
  obtain ⟨xs, ys, rfl, hh⟩ := h.exists_parts
  rw [active_ofParts] at he
  cases xs with
  | nil => cases he
  | cons root xs =>
    rcases popDue_cases root xs ys now with ⟨hlater, -⟩ | ⟨-, rest, -, -, heq⟩
    · rcases List.mem_cons.mp he with rfl | he
      · exact hlater
      · exact lt_of_lt_of_le hlater (hh.head_le he)
    · cases heq.symm.trans hpop

/-- A turn of the loop with an active timer. -/
theorem Valid.valid_of_popDue (h : m.Valid) (hpos : 0 < m.activedTimers)
    {r : Option TimerPtr × TimerManager} (hpop : m.popDue now = some r) : r.2.Valid := by
  have hscan : m.scanning = true := by
    have hle := h.actived_le
    unfold scanning
    rw [Bool.and_eq_true, decide_eq_true_iff, decide_eq_true_iff]
    omega
  obtain ⟨r', hr', hvalid, -⟩ := h.popDue hscan now
  obtain rfl := Option.some.inj (hr'.symm.trans hpop)
  exact hvalid

/-- The loop in `run` ends with no active timer. -/
theorem Shaped.active_eq_nil (h : m.Shaped) (hscan : m.scanning = false) : m.active = [] := by
  obtain ⟨xs, ys, rfl, -⟩ := h.exists_parts
  rw [active_ofParts]
  by_contra hne
  rw [scanning_ofParts.mpr hne] at hscan
  cases hscan

end TimerManager

namespace RunThread

/-- The timers collected that are still to be called. -/
def timers : RunThread → List TimerPtr
  | .sleeping => []
  | .testing _ timers | .locking _ timers | .firing timers | .calling _ timers
  | .enabling _ timers => timers

/-- The clock is still to be read, or was read at the deadline or later. -/
def late (deadline : Int) : RunThread → Bool
  | .sleeping => true
  | .testing now _ | .locking now _ => deadline ≤ now
  | .firing _ | .calling _ _ | .enabling _ _ => false

/-- How many timers the pass may still enable again. -/
def held : RunThread → Nat
  | .sleeping => 0
  | .testing _ timers | .locking _ timers | .firing timers => timers.length
  | .calling _ timers | .enabling _ timers => timers.length + 1

/-- The steps to the end of the pass, with so many active timers. -/
def turns (active : Nat) : RunThread → Nat
  | .sleeping => 5 * active + 3
  | .testing _ timers => 5 * active + 3 * timers.length + 2
  | .locking _ timers => 5 * active + 3 * timers.length + 1
  | .firing timers => 3 * timers.length
  | .calling _ timers => 3 * timers.length + 2
  | .enabling _ timers => 3 * timers.length + 1

/-- The pass of `run` that is under way, or the next one when the thread sleeps,
comes to the timer. -/
def soon (timer : TimerPtr) (deadline : Int) (thread : RunThread) : Bool :=
  thread.late deadline || timer ∈ thread.timers

/-- The steps of the thread up to the call of the timer, at most.  When the pass
does not come to the timer, the next one does. -/
def effort (timer : TimerPtr) (deadline : Int) (active : Nat) (thread : RunThread) : Nat :=
  thread.turns active +
    if thread.soon timer deadline then 0 else 5 * (active + thread.held) + 4

variable {thread thread' : RunThread} {timer : TimerPtr} {deadline : Int} {n n' : Nat}

theorem soon_iff :
    thread.soon timer deadline = true ↔ thread.late deadline = true ∨ timer ∈ thread.timers := by
  rw [soon, Bool.or_eq_true, decide_eq_true_iff]

/-- Fewer active timers. -/
theorem effort_mono (h : n' ≤ n) :
    thread.effort timer deadline n' ≤ thread.effort timer deadline n := by
  have hturns : thread.turns n' ≤ thread.turns n := by
    cases thread <;> simp only [turns] <;> omega
  unfold effort
  split <;> omega

/-- A step in a pass. -/
theorem effort_lt (hturns : thread'.turns n' < thread.turns n)
    (hsoon : thread.soon timer deadline = true → thread'.soon timer deadline = true)
    (hheld : n' + thread'.held ≤ n + thread.held) :
    thread'.effort timer deadline n' < thread.effort timer deadline n := by
  unfold effort
  by_cases h : thread.soon timer deadline = true
  · rw [if_pos h, if_pos (hsoon h)]
    omega
  · rw [if_neg h]
    split <;> omega

end RunThread

namespace TimerRepeats

open TimerSystem (Action Turn)

/-- The steps of the timer thread up to the call of the timer, at most. -/
def effort (timer : TimerPtr) (deadline : Int) (s : TimerRepeats) : Nat :=
  s.thread.effort timer deadline s.manager.active.length

/-- `run` is in the `time_out` of the timer. -/
def Called (timer : TimerPtr) (s : TimerRepeats) : Prop :=
  ∃ timers, s.thread = .calling timer timers

/-- The steps meanwhile.  The clock is read at the deadline or later, nobody
starts a timer, or stops or removes this one, and the other timers are stopped
at an end of the active part. -/
def Waiting (timer : TimerPtr) (deadline : Int) (s : TimerRepeats) : Action → Prop
  | .wake now => deadline ≤ now
  | .enableAgain expired => s.thread = .enabling timer s.thread.timers → expired ≤ deadline
  | .lock => s.RemovesInactive .lock
  | .stop u | .removeDisable u => u ≠ timer ∧ s.manager.AtAnEnd u
  | .removeErase u => u ≠ timer ∧ u ∉ s.manager.activeTimers
  | .start _ _ => False
  | .test | .fire | .returned | .add _ => True

instance (timer : TimerPtr) (deadline : Int) (s : TimerRepeats) :
    DecidablePred (s.Waiting timer deadline)
  | .wake _ => inferInstanceAs (Decidable (_ ≤ _))
  | .enableAgain _ => inferInstanceAs (Decidable (_ → _))
  | .lock => inferInstanceAs (Decidable (s.RemovesInactive .lock))
  | .stop _ | .removeDisable _ => inferInstanceAs (Decidable (_ ∧ _))
  | .removeErase _ => inferInstanceAs (Decidable (_ ∧ _))
  | .start _ _ => isFalse id
  | .test | .fire | .returned | .add _ => isTrue trivial

/-- The invariant up to the call. -/
structure Awaited (kind : TimerPtr → Timer.Kind) (timer : TimerPtr) (deadline : Int)
    (s : TimerRepeats) : Prop where
  inv : s.Inv kind
  heap : IsHeap TimerEntry.expired s.manager.active
  started : timer ∈ s.started
  due : ∀ e ∈ s.manager.active, e.timer = timer → e.expired ≤ deadline

variable {kind : TimerPtr → Timer.Kind} {s s' : TimerRepeats} {a : Action} {timer : TimerPtr}
  {deadline : Int}

theorem Waiting.removesInactive (h : s.Waiting timer deadline a) : s.RemovesInactive a := by
  cases a with
  | lock => exact h
  | removeErase u => exact h.2
  | start => exact absurd h id
  | _ => trivial

theorem Awaited.valid (h : s.Awaited kind timer deadline) : s.manager.Valid :=
  ⟨h.inv.history.shaped, h.heap⟩

/-- The loop of a late pass ends when the timer is not active any more. -/
theorem Awaited.collected (h : s.Awaited kind timer deadline) (hkind : kind timer = .CIRCLE)
    (hlater : s.thread.late deadline = true → timer ∉ s.manager.activeTimers)
    (hholds : s.thread.holds kind = s.thread.timers) (hsoon : s.thread.soon timer deadline = true) :
    timer ∈ s.thread.timers := by
  rcases RunThread.soon_iff.mp hsoon with hlate | hmem
  · rw [← hholds]
    exact (h.inv.kept timer h.started hkind).resolve_left (hlater hlate)
  · exact hmem

/-- A step of the timer thread calls the timer, or comes closer to it. -/
theorem Awaited.effort_lt (h : s.Awaited kind timer deadline) (hkind : kind timer = .CIRCLE)
    (hok : s.Waiting timer deadline a)
    (hturn : Turn kind s.manager s'.manager s.thread s'.thread a) :
    s'.Called timer ∨ s'.effort timer deadline < s.effort timer deadline := by
  have hshaped : s.manager.Shaped := h.inv.history.shaped
  have hcollected := h.collected hkind
  unfold effort
  cases hturn with
  | wake now hthread hthread' hm =>
    right
    rw [hthread, hthread', hm]
    refine RunThread.effort_lt (Nat.lt_succ_self _) (fun _ => ?_) le_rfl
    exact RunThread.soon_iff.mpr (Or.inl (decide_eq_true hok))
  | scan now timers hthread _ hthread' hm =>
    right
    rw [hthread, hthread', hm]
    exact RunThread.effort_lt (Nat.lt_succ_self _) id le_rfl
  | scanned now timers hthread hscan hthread' hm =>
    rw [hthread] at hcollected
    right
    rw [hthread, hthread', hm]
    refine RunThread.effort_lt ?_ (fun hsoon => ?_) le_rfl
    · simp only [RunThread.turns]
      omega
    · refine RunThread.soon_iff.mpr (Or.inr (hcollected (fun _ => ?_) rfl hsoon))
      rw [TimerManager.activeTimers, hshaped.active_eq_nil hscan]
      exact List.not_mem_nil
  | collect now timers u hthread hpop hthread' =>
    have hpos := pos_of_collect hthread hpop hok.removesInactive
    obtain ⟨m, hr, hshaped', -, hsome⟩ := hshaped.popDue hpos now
    obtain rfl := Option.some.inj (hr.symm.trans hpop)
    have hactived : s'.manager.activedTimers = s.manager.activedTimers - 1 := (hsome u rfl).2.1
    have hlen : s'.manager.active.length + 1 = s.manager.active.length := by
      have hn := hshaped.active_length
      have hn' : (s'.manager.active.length : Int) = s'.manager.activedTimers :=
        hshaped'.active_length
      omega
    right
    rw [hthread, hthread']
    refine RunThread.effort_lt ?_ (fun hsoon => ?_) ?_
    · simp only [RunThread.turns, List.length_append, List.length_singleton]
      omega
    · exact RunThread.soon_iff.mpr
        ((RunThread.soon_iff.mp hsoon).imp_right (List.mem_append_left _))
    · simp only [RunThread.held, List.length_append, List.length_singleton]
      omega
  | stop now timers hthread hpop hthread' =>
    rw [hthread] at hcollected
    right
    rw [hthread, hthread', TimerManager.popDue_none hpop]
    refine RunThread.effort_lt ?_ (fun hsoon => ?_) le_rfl
    · simp only [RunThread.turns]
      omega
    · refine RunThread.soon_iff.mpr (Or.inr (hcollected (fun hlate hactive => ?_) rfl hsoon))
      -- an active entry of the timer would be due, and the root is not
      obtain ⟨e, he, hte⟩ := List.mem_map.mp hactive
      have hlater := h.valid.later_of_popDue hpop he
      have hdue := h.due e he hte
      have hnow : deadline ≤ now := of_decide_eq_true hlate
      omega
  | sleep hthread hthread' hm =>
    right
    rw [hthread, hthread', hm]
    simp [RunThread.effort, RunThread.turns, RunThread.soon, RunThread.late, RunThread.timers,
      RunThread.held]
  | call u timers hthread hthread' hm =>
    by_cases hu : timer = u
    · left
      exact ⟨timers, hu ▸ hthread'⟩
    · right
      rw [hthread, hthread', hm]
      refine RunThread.effort_lt ?_ (fun hsoon => ?_) le_rfl
      · simp only [RunThread.turns, List.length_cons]
        omega
      · exact RunThread.soon_iff.mpr ((RunThread.soon_iff.mp hsoon).imp_right
          fun hmem => (List.mem_cons.mp hmem).resolve_left hu)
  | again u timers hthread _ hthread' hm =>
    right
    rw [hthread, hthread', hm]
    exact RunThread.effort_lt (Nat.lt_succ_self _) id le_rfl
  | once u timers hthread _ hthread' hm =>
    right
    rw [hthread, hthread', hm]
    refine RunThread.effort_lt ?_ id (Nat.add_le_add_left (Nat.le_succ _) _)
    simp only [RunThread.turns]
    omega
  | enable u timers expired hthread hthread' hm =>
    have hlen := hshaped.length_enableTimer_le (t := u) expired
    right
    rw [hthread, hthread', hm]
    refine RunThread.effort_lt (Nat.lt_succ_self _) id ?_
    simp only [RunThread.held]
    omega

/-- A step of the timer thread keeps the order, and the deadline. -/
theorem Awaited.manager_of_turn (h : s.Awaited kind timer deadline)
    (hok : s.Waiting timer deadline a)
    (hturn : Turn kind s.manager s'.manager s.thread s'.thread a) :
    s'.manager.Valid ∧ ∀ e ∈ s'.manager.active, e.timer = timer → e.expired ≤ deadline := by
  have hsame : s'.manager = s.manager →
      s'.manager.Valid ∧ ∀ e ∈ s'.manager.active, e.timer = timer → e.expired ≤ deadline := by
    intro hm
    rw [hm]
    exact ⟨h.valid, h.due⟩
  cases hturn with
  | wake _ _ _ hm | scan _ _ _ _ _ hm | scanned _ _ _ _ _ hm | sleep _ _ hm | call _ _ _ _ hm
  | again _ _ _ _ _ hm | once _ _ _ _ _ hm => exact hsame hm
  | stop now timers _ hpop => exact hsame (TimerManager.popDue_none hpop)
  | collect now timers u hthread hpop =>
    have hpos := pos_of_collect hthread hpop hok.removesInactive
    have hsub := (h.valid.toShaped.active_popDue hpos hpop).1
    exact ⟨h.valid.valid_of_popDue hpos hpop, fun e he => h.due e (hsub e he)⟩
  | enable u timers expired hthread _ hm =>
    rw [hm]
    refine ⟨h.valid.enableTimer u expired, fun e he hte => ?_⟩
    rcases (h.valid.toShaped.mem_active_enableTimer expired).mp he with he | ⟨rfl, -⟩
    · exact h.due e he hte
    · apply hok
      rw [hthread]
      exact congrArg (RunThread.enabling · timers) hte

/-- A step of the timer thread. -/
theorem Awaited.turn (h : s.Awaited kind timer deadline) (hkind : kind timer = .CIRCLE)
    (hok : s.Waiting timer deadline a) (ha : a.ofThread = true) (hs : s.step kind a = some s') :
    s'.Called timer ∨
      s'.Awaited kind timer deadline ∧ s'.effort timer deadline < s.effort timer deadline := by
  obtain ⟨hturn, hstarted, -⟩ := frame_of_ofThread ha hs
  obtain ⟨hvalid, hdue⟩ := h.manager_of_turn hok hturn
  refine (h.effort_lt hkind hok hturn).imp_right fun hlt => ⟨?_, hlt⟩
  exact ⟨h.inv.step hok.removesInactive hs, hvalid.heap, hstarted ▸ h.started, hdue⟩

/-- A step of another thread that changes no deadline. -/
theorem Awaited.keep (h : s.Awaited kind timer deadline) (hinv : s'.Inv kind)
    (hstarted : timer ∈ s'.started) (hthread : s'.thread = s.thread) (hvalid : s'.manager.Valid)
    (hsub : ∀ e ∈ s'.manager.active, e ∈ s.manager.active)
    (hlen : s'.manager.active.length ≤ s.manager.active.length) :
    s'.Awaited kind timer deadline ∧ s'.effort timer deadline ≤ s.effort timer deadline := by
  refine ⟨⟨hinv, hvalid.heap, hstarted, fun e he => h.due e (hsub e he)⟩, ?_⟩
  unfold effort
  rw [hthread]
  exact RunThread.effort_mono hlen

theorem mem_filter_ne {u : TimerPtr} (h : timer ∈ s.started) (hne : u ≠ timer) :
    timer ∈ s.started.filter (· ≠ u) :=
  List.mem_filter.mpr ⟨h, decide_eq_true (Ne.symm hne)⟩

theorem Awaited.other (h : s.Awaited kind timer deadline) (hok : s.Waiting timer deadline a)
    (ha : a.ofThread = false) (hs : s.step kind a = some s') :
    s'.Awaited kind timer deadline ∧ s'.effort timer deadline ≤ s.effort timer deadline := by
  have hinv := h.inv.step hok.removesInactive hs
  have hshaped := h.valid.toShaped
  obtain ⟨history, hhistory, rfl⟩ := Option.map_eq_some_iff.mp hs
  obtain ⟨sys, hsys, rfl⟩ := Option.map_eq_some_iff.mp hhistory
  cases a with
  | add u =>
    cases hsys
    have hactive := hshaped.active_addTimer (t := u)
    refine h.keep hinv h.started rfl (h.valid.addTimer u) (fun e he => ?_) ?_
    · exact hactive ▸ he
    · exact (congrArg List.length hactive).le
  | stop u =>
    obtain ⟨m, hm, rfl⟩ := Option.map_eq_some_iff.mp hsys
    obtain ⟨m', hm', hvalid, -⟩ := h.valid.disableTimer hok.2
    obtain rfl := Option.some.inj (hm'.symm.trans hm)
    exact h.keep hinv (mem_filter_ne h.started hok.1) rfl hvalid
      (fun e he => hshaped.active_disableTimer hm he) (hshaped.length_disableTimer_le hm)
  | removeDisable u =>
    obtain ⟨m, hm, rfl⟩ := Option.map_eq_some_iff.mp hsys
    obtain ⟨m', hm', hvalid, -⟩ := h.valid.disableTimer hok.2
    obtain rfl := Option.some.inj (hm'.symm.trans hm)
    exact h.keep hinv (mem_filter_ne h.started hok.1) rfl hvalid
      (fun e he => hshaped.active_disableTimer hm he) (hshaped.length_disableTimer_le hm)
  | removeErase u =>
    simp only [TimerSystem.step] at hsys
    split at hsys
    · cases hsys
      have hactive := hshaped.active_eraseTimer hok.2
      refine h.keep hinv (mem_filter_ne h.started hok.1) rfl (h.valid.eraseTimer hok.2)
        (fun e he => ?_) ?_
      · exact hactive ▸ he
      · exact (congrArg List.length hactive).le
    · cases hsys
  | start => exact absurd hok id
  | wake | test | lock | fire | returned | enableAgain => exact absurd ha Bool.true_eq_false.mp

/-- In every run that erases inactive timers and pops active ones only, and from
every state with the active timers in order: whatever the other threads do,
short of a start or a stop of this timer, the timer thread calls a repeating
timer that is started once it has taken more than `effort` steps. -/
theorem called_of_kept (h : ReachableIf (step kind) RemovesInactive new s)
    (hheap : IsHeap TimerEntry.expired s.manager.active) (hstarted : timer ∈ s.started)
    (hkind : kind timer = .CIRCLE)
    (hdue : ∀ e ∈ s.manager.active, e.timer = timer → e.expired ≤ deadline)
    {as : List Action} (hr : runIf (step kind) (Waiting timer deadline) s as = some s')
    (hcount : s.effort timer deadline < as.countP Action.ofThread) :
    Passes (step kind) (Waiting timer deadline) (Called timer) s as := by
  have hinv : s.Inv kind := h.invariant inv_new fun _ _ _ h hok hs => h.step hok hs
  exact passes_of_rank Action.ofThread (Awaited kind timer deadline) (effort timer deadline)
    (fun _ _ _ h hok ha hs => h.turn hkind hok ha hs)
    (fun _ _ _ h hok ha hs => Or.inr (h.other hok ha hs)) ⟨hinv, hheap, hstarted, hdue⟩ hr hcount

/-- The timer thread has collected timer 0 at 15, in a pass that comes too early
for timer 1, which has the deadline 20. -/
theorem called_of_kept_next_pass :
    ∃ s : TimerRepeats, (s.thread = .testing 15 [0] ∧ s.manager.active = [⟨1, 20⟩]) ∧
      Passes (step fun _ => .CIRCLE) (Waiting 1 20) (Called 1) s
        [.test, .lock, .fire, .returned, .enableAgain 25, .fire, .wake 30, .add 2, .test, .lock,
          .test, .lock, .test, .fire, .returned, .enableAgain 20, .fire, .returned,
          .enableAgain 40, .fire, .wake 30, .test, .lock, .test, .lock, .fire] := by
  obtain ⟨s, hs, hP, hheap, hstarted, hdue, hcount, s', hr⟩ :
      ∃ s, ReachableIf (step fun _ => .CIRCLE) RemovesInactive new s ∧
        (s.thread = .testing 15 [0] ∧ s.manager.active = [⟨1, 20⟩]) ∧
        IsHeap TimerEntry.expired s.manager.active ∧ 1 ∈ s.started ∧
        (∀ e ∈ s.manager.active, e.timer = 1 → e.expired ≤ 20) ∧ s.effort 1 20 < 25 ∧
        ∃ s', runIf (step fun _ => .CIRCLE) (Waiting 1 20) s
          [.test, .lock, .fire, .returned, .enableAgain 25, .fire, .wake 30, .add 2, .test, .lock,
            .test, .lock, .test, .fire, .returned, .enableAgain 20, .fire, .returned,
            .enableAgain 40, .fire, .wake 30, .test, .lock, .test, .lock, .fire] = some s' := by
    simp only [← Option.isSome_iff_exists]
    exact exists_reachable_of_run
      [.add 0, .add 1, .start 0 10, .start 1 20, .wake 15, .test, .lock]
      (by decide +kernel)
  exact ⟨s, hP, called_of_kept hs hheap hstarted rfl hdue hr hcount⟩

end TimerRepeats

end CppRpc
