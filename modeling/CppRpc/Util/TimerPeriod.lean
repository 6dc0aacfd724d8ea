import Mathlib.Data.List.Chain
import CppRpc.Util.TimerRepeats

/-!
# The period of a timer

The timers with their objects, as in `TimerObjects`, and the clock.  Every
reading of the clock, in `run`, in `start` and in `time_out`, is at the last one
or later.  The history `collected` holds the readings of the passes that
collected a timer since it was started, the last one first.

`PeriodKept` is the property: two passes that collect a timer are `m_interals`
apart at least, and a `ONCE` timer is collected once.  `Forward` is the
condition; next to the clock it asks that the loop in `run` pops with an active
timer.  `periodKept_of_forward` is the result.  Deadlines that `enable_timer`
ignores, and an order of the heap that is lost, do not matter here: an active
timer keeps the deadline that it was enabled with, and that is the end of a
period, whoever enabled it.
-/

namespace CppRpc

open Runs

/-- The timers and the clock. -/
structure TimerClock where
  objects : TimerObjects
  clock : Int
  collected : TimerPtr → List Int

namespace TimerClock

open TimerObjects (Action)
open TimerSystem (Turn turn_of_step)

/-- The clock stands anywhere. -/
def new (clock : Int) : TimerClock := ⟨.new, clock, fun _ => []⟩

/-- The manager. -/
abbrev manager (s : TimerClock) : TimerManager := s.objects.manager

/-- The timer thread. -/
abbrev thread (s : TimerClock) : RunThread := s.objects.history.sys.thread

/-- The reading of the clock in a step. -/
def reading : Action → Option Int
  | .wake now | .start _ _ now | .timeOut now => some now
  | .construct _ | .stop _ | .test | .lock | .fire | .returned => none

/-- The history after a step. -/
def collectedAfter (s : TimerClock) : Action → TimerPtr → List Int
  | .construct timer | .start timer _ _ => Function.update s.collected timer []
  | .lock =>
      match s.thread, s.objects.history.sys.collected with
      | .locking now _, some timer =>
          Function.update s.collected timer (now :: s.collected timer)
      | _, _ => s.collected
  | .wake _ | .stop _ | .timeOut _ | .test | .fire | .returned => s.collected

/-- One step. -/
def step (kind : TimerPtr → Timer.Kind) (s : TimerClock) (a : Action) : Option TimerClock :=
  (s.objects.step kind a).map fun objects =>
    ⟨objects, (reading a).getD s.clock, s.collectedAfter a⟩

/-- The property. -/
structure PeriodKept (kind : TimerPtr → Timer.Kind) (s : TimerClock) : Prop where
  period : ∀ t, (s.collected t).IsChain fun now before => before + s.objects.interals t ≤ now
  once : ∀ t, kind t = .ONCE → (s.collected t).length ≤ 1

/-- The condition on the state before a step. -/
def Forward (s : TimerClock) (a : Action) : Prop :=
  (∀ now ∈ reading a, s.clock ≤ now) ∧
    match a with
    | .lock => s.objects.history.sys.rootDue = true → 0 < s.manager.activedTimers
    | _ => True

instance (s : TimerClock) : DecidablePred s.Forward
  | .lock => inferInstanceAs (Decidable ((∀ now ∈ reading .lock, s.clock ≤ now) ∧ (_ → _)))
  | .construct _ | .start _ _ _ | .stop _ | .wake _ | .test | .fire | .returned | .timeOut _ =>
    inferInstanceAs (Decidable ((∀ now ∈ reading _, s.clock ≤ now) ∧ True))

/-- The invariant.  The deadline of an active timer is a period behind the last
pass that collected it. -/
structure Inv (kind : TimerPtr → Timer.Kind) (s : TimerClock) : Prop where
  history : s.objects.history.Inv
  kept : s.PeriodKept kind
  read : ∀ now timers, s.thread = .testing now timers ∨ s.thread = .locking now timers →
    now ≤ s.clock
  enabling : ∀ t timers, s.thread = .enabling t timers → kind t = .CIRCLE
  past : ∀ t, ∀ before ∈ (s.collected t).head?, before ≤ s.clock
  active : ∀ e ∈ s.manager.active, ∀ before ∈ (s.collected e.timer).head?,
    kind e.timer = .CIRCLE ∧ before + s.objects.interals e.timer ≤ e.expired

variable {kind : TimerPtr → Timer.Kind} {s s' : TimerClock} {a : Action}

theorem inv_new (clock : Int) : (new clock).Inv kind where
  history := TimerHistory.inv_new
  kept := ⟨fun _ => List.isChain_nil, fun _ _ => Nat.zero_le _⟩
  read := by simp [new, TimerObjects.new, TimerHistory.new, TimerSystem.new]
  enabling := nofun
  past := nofun
  active := nofun

/-- A step that collects no timer and makes none active. -/
theorem Inv.keep (h : s.Inv kind) {objects : TimerObjects} {clock : Int}
    (hinv : objects.history.Inv) (hinterals : objects.interals = s.objects.interals)
    (hclock : s.clock ≤ clock)
    (hread : ∀ now timers, objects.history.sys.thread = .testing now timers ∨
      objects.history.sys.thread = .locking now timers → now ≤ clock)
    (henabling : ∀ t timers, objects.history.sys.thread = .enabling t timers → kind t = .CIRCLE)
    (hsub : ∀ e ∈ objects.manager.active, e ∈ s.manager.active) :
    (⟨objects, clock, s.collected⟩ : TimerClock).Inv kind := by
  refine ⟨hinv, ⟨?_, h.kept.once⟩, hread, henabling, ?_, fun e he => ?_⟩
  · dsimp only
    rw [hinterals]
    exact h.kept.period
  · exact fun t before hb => (h.past t before hb).trans hclock
  · dsimp only
    rw [hinterals]
    exact h.active e (hsub e he)

/-- The history of a timer begins anew. -/
theorem Inv.restart (h : s.Inv kind) {history : TimerHistory} {clock : Int} (t : TimerPtr)
    (interals : Int) (expired : TimerPtr → Int) (hinv : history.Inv) (hclock : s.clock ≤ clock)
    (hthread : history.sys.thread = s.thread)
    (hsub : ∀ e ∈ history.sys.manager.active, e.timer ≠ t → e ∈ s.manager.active) :
    (⟨⟨history, Function.update s.objects.interals t interals, expired, s.objects.early⟩, clock,
      Function.update s.collected t []⟩ : TimerClock).Inv kind := by
  have hcollected : ∀ u, Function.update s.collected t [] u = [] ∨
      u ≠ t ∧ Function.update s.collected t [] u = s.collected u := by
    intro u
    by_cases hu : u = t
    · rw [hu, Function.update_self]
      exact Or.inl rfl
    · exact Or.inr ⟨hu, Function.update_of_ne hu ..⟩
  refine ⟨hinv, ⟨fun u => ?_, fun u hkind => ?_⟩, fun now timers hnow => ?_, ?_, ?_, ?_⟩
  · dsimp only
    rcases hcollected u with hnil | ⟨hu, hsame⟩
    · rw [hnil]
      exact List.isChain_nil
    · rw [hsame, Function.update_of_ne hu]
      exact h.kept.period u
  · dsimp only
    rcases hcollected u with hnil | ⟨-, hsame⟩
    · rw [hnil]
      exact Nat.zero_le _
    · rw [hsame]
      exact h.kept.once u hkind
  · rw [thread, hthread] at hnow
    exact (h.read now timers hnow).trans hclock
  · intro u timers hu
    rw [thread, hthread] at hu
    exact h.enabling u timers hu
  · intro u before hb
    dsimp only at hb
    rcases hcollected u with hnil | ⟨-, hsame⟩
    · rw [hnil] at hb
      cases hb
    · rw [hsame] at hb
      exact (h.past u before hb).trans hclock
  · intro e he before hb
    dsimp only at hb ⊢
    rcases hcollected e.timer with hnil | ⟨hu, hsame⟩
    · rw [hnil] at hb
      cases hb
    · rw [hsame] at hb
      rw [Function.update_of_ne hu]
      exact h.active e (hsub e he hu) before hb

/-- A timer is collected. -/
theorem Inv.collect (h : s.Inv kind) {objects : TimerObjects} {now : Int} {t : TimerPtr}
    (hinv : objects.history.Inv) (hinterals : objects.interals = s.objects.interals)
    (hnow : now ≤ s.clock) (timers : List TimerPtr)
    (hthread : objects.history.sys.thread = .testing now timers)
    (hdue : ∃ e ∈ s.manager.active, e.timer = t ∧ e.expired ≤ now)
    (hsub : ∀ e ∈ objects.manager.active, e ∈ s.manager.active ∧ e.timer ≠ t) :
    (⟨objects, s.clock, Function.update s.collected t (now :: s.collected t)⟩ :
      TimerClock).Inv kind := by
  obtain ⟨root, hroot, rfl, hexpired⟩ := hdue
  have hlast := h.active root hroot
  have hcollected : ∀ u, u = root.timer ∨
      Function.update s.collected root.timer (now :: s.collected root.timer) u = s.collected u := by
    intro u
    by_cases hu : u = root.timer
    · exact Or.inl hu
    · exact Or.inr (Function.update_of_ne hu ..)
  refine ⟨hinv, ⟨fun u => ?_, fun u hkind => ?_⟩, fun now' timers' hnow' => ?_,
    fun u us hu => ?_, ?_, ?_⟩
  · dsimp only
    rw [hinterals]
    rcases hcollected u with rfl | hsame
    · rw [Function.update_self, List.isChain_cons]
      refine ⟨fun before hb => ?_, h.kept.period _⟩
      exact (hlast before hb).2.trans hexpired
    · rw [hsame]
      exact h.kept.period u
  · dsimp only
    rcases hcollected u with rfl | hsame
    · have hnil : s.collected root.timer = [] := by
        rw [← List.head?_eq_none_iff, Option.eq_none_iff_forall_ne_some]
        intro before hb
        have hcircle := (hlast before hb).1
        rw [hkind] at hcircle
        cases hcircle
      rw [Function.update_self, hnil]
      exact le_rfl
    · rw [hsame]
      exact h.kept.once u hkind
  · rw [thread, hthread] at hnow'
    simp only [RunThread.testing.injEq, reduceCtorEq, or_false] at hnow'
    exact hnow'.1 ▸ hnow
  · rw [thread, hthread] at hu
    cases hu
  · intro u before hb
    dsimp only at hb ⊢
    rcases hcollected u with rfl | hsame
    · rw [Function.update_self] at hb
      cases hb
      exact hnow
    · rw [hsame] at hb
      exact h.past u before hb
  · intro e he before hb
    obtain ⟨hmem, hne⟩ := hsub e he
    dsimp only at hb ⊢
    rw [Function.update_of_ne hne] at hb
    rw [hinterals]
    exact h.active e hmem before hb

/-- A step of the timer thread, up to `time_out`. -/
theorem Inv.turn (h : s.Inv kind) {b : TimerSystem.Action} {history : TimerHistory}
    (hb : b = .test ∨ b = .fire ∨ b = .returned)
    (hs : s.objects.history.step kind b = some history) :
    (⟨{ s.objects with history }, s.clock, s.collected⟩ : TimerClock).Inv kind := by
  have hinv : history.Inv := by
    refine h.history.step ?_ hs
    rcases hb with rfl | rfl | rfl <;> trivial
  have hown : b.ofThread = true := by
    rcases hb with rfl | rfl | rfl <;> rfl
  obtain ⟨sys, hsys, hmap⟩ := Option.map_eq_some_iff.mp hs
  obtain rfl : history.sys = sys := by
    rw [← hmap]
    rcases hb with rfl | rfl | rfl <;> rfl
  have hturn : Turn kind s.manager history.sys.manager s.thread history.sys.thread b :=
    turn_of_step hown hsys
  cases hturn with
  | wake | collect | stop | enable => simp at hb
  | scan now timers hthread _ hthread' hm =>
    refine h.keep hinv rfl le_rfl (fun now' timers' hnow => ?_) ?_ (fun e he => hm ▸ he)
    · rw [hthread'] at hnow
      simp only [reduceCtorEq, RunThread.locking.injEq, false_or] at hnow
      obtain ⟨rfl, rfl⟩ := hnow
      exact h.read now timers (Or.inl hthread)
    · rw [hthread']
      simp
  | scanned now timers hthread _ hthread' hm =>
    refine h.keep hinv rfl le_rfl ?_ ?_ (fun e he => hm ▸ he) <;> rw [hthread'] <;> simp
  | sleep hthread hthread' hm =>
    refine h.keep hinv rfl le_rfl ?_ ?_ (fun e he => hm ▸ he) <;> rw [hthread'] <;> simp
  | call t timers hthread hthread' hm =>
    refine h.keep hinv rfl le_rfl ?_ ?_ (fun e he => hm ▸ he) <;> rw [hthread'] <;> simp
  | once t timers hthread _ hthread' hm =>
    refine h.keep hinv rfl le_rfl ?_ ?_ (fun e he => hm ▸ he) <;> rw [hthread'] <;> simp
  | again t timers hthread hkind hthread' hm =>
    refine h.keep hinv rfl le_rfl ?_ (fun u us hu => ?_) (fun e he => hm ▸ he)
    · rw [hthread']
      simp
    · rw [hthread'] at hu
      cases hu
      exact hkind

/-- The block in the loop of `run`. -/
theorem Inv.lock (h : s.Inv kind) (hok : s.Forward .lock)
    (hs : s.step kind .lock = some s') : s'.Inv kind := by
  obtain ⟨objects, hobjects, rfl⟩ := Option.map_eq_some_iff.mp hs
  obtain ⟨history, hhistory, rfl⟩ := Option.map_eq_some_iff.mp hobjects
  have hinv := h.history.step (a := .lock) hok.2 hhistory
  obtain ⟨sys, hsys, hmap⟩ := Option.map_eq_some_iff.mp hhistory
  obtain rfl : history.sys = sys := by rw [← hmap]
  have hturn : Turn kind s.manager history.sys.manager s.thread history.sys.thread .lock :=
    turn_of_step rfl hsys
  have hcollected : ∀ now timers r, s.thread = .locking now timers →
      s.manager.popDue now = some r → s.collectedAfter .lock =
        r.1.elim s.collected fun t => Function.update s.collected t (now :: s.collected t) := by
    intro now timers r hthread hpop
    unfold collectedAfter TimerSystem.collected
    simp only [show s.objects.history.sys.thread = .locking now timers from hthread,
      show s.objects.history.sys.manager.popDue now = some r from hpop, Option.bind_some]
    cases r.1 <;> rfl
  show (⟨_, s.clock, s.collectedAfter .lock⟩ : TimerClock).Inv kind
  cases hturn with
  | collect now timers t hthread hpop hthread' =>
    have hpos : 0 < s.manager.activedTimers := by
      apply hok.2
      by_contra hdue
      cases (Prod.mk.inj (TimerSystem.popDue_of_not_rootDue hthread hdue hpop)).1
    obtain ⟨hsub, hdue⟩ := h.history.shaped.active_popDue hpos hpop
    obtain ⟨r, hr, -, -, hsome⟩ := h.history.shaped.popDue hpos now
    obtain rfl := Option.some.inj (hr.symm.trans hpop)
    rw [hcollected now timers _ hthread hpop]
    refine h.collect hinv rfl (h.read now timers (Or.inr hthread)) _ hthread' (hdue t rfl)
      fun e he => ⟨hsub e he, ?_⟩
    exact (((hsome t rfl).2.2 e.timer).mp (TimerManager.mem_activeTimers he)).2
  | stop now timers hthread hpop hthread' =>
    have hm := TimerManager.popDue_none hpop
    rw [hcollected now timers _ hthread hpop]
    refine h.keep hinv rfl le_rfl ?_ ?_ (fun e he => hm ▸ he) <;> dsimp only <;>
      rw [hthread'] <;> simp

/-- The end of `time_out`. -/
theorem Inv.timeOut (h : s.Inv kind) {now : Int} (hok : s.Forward (.timeOut now))
    (hs : s.step kind (.timeOut now) = some s') : s'.Inv kind := by
  have hclock : s.clock ≤ now := hok.1 now rfl
  obtain ⟨objects, hobjects, rfl⟩ := Option.map_eq_some_iff.mp hs
  cases hthread : s.objects.history.sys.thread with
  | enabling t timers =>
    have henabling : s.objects.enabling = some t := by rw [TimerObjects.enabling, hthread]
    simp only [TimerObjects.step, henabling] at hobjects
    obtain ⟨history, hhistory, rfl⟩ := Option.map_eq_some_iff.mp hobjects
    have hinv := h.history.step (a := .enableAgain (now + s.objects.interals t)) trivial hhistory
    obtain ⟨sys, hsys, rfl⟩ := Option.map_eq_some_iff.mp hhistory
    simp only [TimerSystem.step, hthread] at hsys
    cases hsys
    refine ⟨hinv, ⟨h.kept.period, h.kept.once⟩, ?_, ?_, ?_, fun e he before hb => ?_⟩
    · simp [thread, hthread]
    · simp [thread, hthread]
    · exact fun u before hb => (h.past u before hb).trans hclock
    · have hmem : e ∈ (s.manager.enableTimer t (now + s.objects.interals t)).active := by
        simpa [manager, TimerObjects.manager, hthread] using he
      rcases (h.history.shaped.mem_active_enableTimer _).mp hmem with he | ⟨rfl, -⟩
      · exact h.active e he before hb
      · refine ⟨h.enabling _ timers hthread, ?_⟩
        have hpast := h.past _ before hb
        dsimp only
        omega
  | _ => simp [TimerObjects.step, TimerObjects.enabling, hthread] at hobjects

theorem Inv.step (h : s.Inv kind) (hok : s.Forward a) (hs : s.step kind a = some s') :
    s'.Inv kind := by
  cases a with
  | construct t =>
    obtain ⟨objects, hobjects, rfl⟩ := Option.map_eq_some_iff.mp hs
    obtain ⟨-, hobjects⟩ := Option.ite_none_left_eq_some.mp hobjects
    obtain ⟨history, hhistory, rfl⟩ := Option.map_eq_some_iff.mp hobjects
    have hinv := h.history.step (a := .add t) trivial hhistory
    cases hhistory
    refine h.restart t (-1) _ hinv le_rfl rfl fun e he _ => ?_
    rw [← h.history.shaped.active_addTimer (t := t)]
    exact he
  | start t intervals now =>
    obtain ⟨objects, hobjects, rfl⟩ := Option.map_eq_some_iff.mp hs
    obtain ⟨-, hobjects⟩ := Option.ite_none_right_eq_some.mp hobjects
    obtain ⟨history, hhistory, rfl⟩ := Option.map_eq_some_iff.mp hobjects
    have hinv := h.history.step (a := .start t (now + intervals)) trivial hhistory
    cases hhistory
    refine h.restart t intervals _ hinv (hok.1 now rfl) rfl fun e he hne => ?_
    rcases (h.history.shaped.mem_active_enableTimer _).mp he with he | ⟨rfl, -⟩
    · exact he
    · exact absurd rfl hne
  | stop t =>
    obtain ⟨objects, hobjects, rfl⟩ := Option.map_eq_some_iff.mp hs
    obtain ⟨-, hobjects⟩ := Option.ite_none_right_eq_some.mp hobjects
    obtain ⟨history, hhistory, rfl⟩ := Option.map_eq_some_iff.mp hobjects
    have hinv := h.history.step (a := .stop t) trivial hhistory
    obtain ⟨sys, hsys, rfl⟩ := Option.map_eq_some_iff.mp hhistory
    obtain ⟨m, hm, rfl⟩ := Option.map_eq_some_iff.mp hsys
    exact h.keep hinv rfl le_rfl h.read h.enabling
      fun e he => h.history.shaped.active_disableTimer hm he
  | wake now =>
    obtain ⟨objects, hobjects, rfl⟩ := Option.map_eq_some_iff.mp hs
    obtain ⟨history, hhistory, rfl⟩ := Option.map_eq_some_iff.mp hobjects
    have hinv := h.history.step (a := .wake now) trivial hhistory
    obtain ⟨sys, hsys, hmap⟩ := Option.map_eq_some_iff.mp hhistory
    obtain rfl : history.sys = sys := by rw [← hmap]
    have hturn : Turn kind s.manager history.sys.manager s.thread history.sys.thread (.wake now) :=
      turn_of_step rfl hsys
    cases hturn with
    | wake now hthread hthread' hm =>
      refine h.keep hinv rfl (hok.1 now rfl) (fun now' timers hnow => ?_) (fun u us hu => ?_)
        (fun e he => hm ▸ he)
      · rw [hthread'] at hnow
        simp only [RunThread.testing.injEq, reduceCtorEq, or_false] at hnow
        exact hnow.1 ▸ le_rfl
      · rw [hthread'] at hu
        cases hu
  | lock => exact h.lock hok hs
  | timeOut now => exact h.timeOut hok hs
  | test =>
    obtain ⟨objects, hobjects, rfl⟩ := Option.map_eq_some_iff.mp hs
    obtain ⟨history, hhistory, rfl⟩ := Option.map_eq_some_iff.mp hobjects
    exact h.turn (Or.inl rfl) hhistory
  | fire =>
    obtain ⟨objects, hobjects, rfl⟩ := Option.map_eq_some_iff.mp hs
    obtain ⟨history, hhistory, rfl⟩ := Option.map_eq_some_iff.mp hobjects
    exact h.turn (Or.inr (Or.inl rfl)) hhistory
  | returned =>
    obtain ⟨objects, hobjects, rfl⟩ := Option.map_eq_some_iff.mp hs
    obtain ⟨history, hhistory, rfl⟩ := Option.map_eq_some_iff.mp hobjects
    exact h.turn (Or.inr (Or.inr rfl)) hhistory

/-- In every run with a clock that does not go back, in which `run` pops active
timers only, each timer keeps its period. -/
theorem periodKept_of_forward {clock : Int} (h : ReachableIf (step kind) Forward (new clock) s) :
    s.PeriodKept kind :=
  (h.invariant (inv_new clock) fun _ _ _ h hok hs => h.step hok hs).kept

/-- A timer with the period 10 is collected at 15 and not at 25, since its next
period began at the end of its `time_out`, at 16. -/
theorem periodKept_of_forward_two_passes :
    ∃ s : TimerClock, (s.collected 0 = [27, 15] ∧ s.objects.interals 0 = 10) ∧
      s.PeriodKept fun _ => .CIRCLE := by
  obtain ⟨s, hs, hP⟩ : ∃ s, ReachableIf (step fun _ => .CIRCLE) Forward (new 0) s ∧
      (s.collected 0 = [27, 15] ∧ s.objects.interals 0 = 10) :=
    exists_reachable_of_run
      [.construct 0, .start 0 10 3, .wake 15, .test, .lock, .test, .fire, .returned, .timeOut 16,
        .fire, .wake 25, .test, .lock, .fire, .wake 27, .test, .lock]
      (by decide +kernel)
  exact ⟨s, hP, periodKept_of_forward hs⟩

end TimerClock

end CppRpc
