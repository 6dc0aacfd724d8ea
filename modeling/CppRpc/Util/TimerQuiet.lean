import CppRpc.Lib.Runs
import CppRpc.Util.TimerParts

/-!
# Stopped timers and the thread of `run`

The timer thread together with any number of threads that call `Timer::start`,
`Timer::stop` and `~Timer`.  A step is one block under the lock of the manager,
or a point of `run` between two of them: `run` tests the counter without the
lock, collects the due timers one block at a time, and calls their `time_out`
without the lock.  `Timer::time_out` calls back and, for a `CIRCLE` timer,
enables the timer again.  It is the same step for a timer that `~Timer` has
destroyed since `run` collected it, although the source then reads an object that
is gone.

A timer is quiet from the return of `disable_timer` or `remove_timer` on, until
its next `start`.  `QuietKept` is the property: no `time_out` is called on a
quiet timer, and none is active.  It fails when `stop` finds its timer among
those that `run` has collected, when a root that is due is popped although no
timer is active any more, and when `start` falls between the two blocks of
`remove_timer`.  `Undisturbed` excludes these steps, `quietKept_of_undisturbed`
is the result, and `stopped_timer_fires` a run with the first of them.
-/

namespace CppRpc

open Runs

/-- `Timer::Type`. -/
inductive Timer.Kind
  | ONCE
  | CIRCLE
  deriving DecidableEq

/-- Where the timer thread stands in `run`.  `timers` are those collected, and
while they fire, those that are still to come. -/
inductive RunThread
  | sleeping
  /-- At the test of the loop. -/
  | testing (now : Int) (timers : List TimerPtr)
  /-- In the loop, before the lock. -/
  | locking (now : Int) (timers : List TimerPtr)
  | firing (timers : List TimerPtr)
  /-- In `time_out`, before the test of `m_type`. -/
  | calling (timer : TimerPtr) (timers : List TimerPtr)
  /-- In `time_out`, before `enable_timer`. -/
  | enabling (timer : TimerPtr) (timers : List TimerPtr)
  deriving DecidableEq

/-- The timers on which `run` will still call `time_out`, or enable again. -/
def RunThread.holds (kind : TimerPtr → Timer.Kind) : RunThread → List TimerPtr
  | .sleeping => []
  | .testing _ timers | .locking _ timers | .firing timers => timers
  | .calling timer timers => if kind timer = .CIRCLE then timer :: timers else timers
  | .enabling timer timers => timer :: timers

@[simp] theorem RunThread.holds_calling (kind : TimerPtr → Timer.Kind) (timer : TimerPtr)
    (timers : List TimerPtr) : (RunThread.calling timer timers).holds kind =
      if kind timer = .CIRCLE then timer :: timers else timers := rfl

/-- The timers of one manager.  `removing` holds the timers of threads between
the two blocks of `remove_timer`.  `quiet` and `disturbed` are histories:
the quiet timers, and those that were quiet when `run` called `time_out`. -/
structure TimerSystem where
  manager : TimerManager
  thread : RunThread
  removing : List TimerPtr
  quiet : List TimerPtr
  disturbed : List TimerPtr

namespace TimerSystem

inductive Action
  /-- The sleep is over, and the clock is read. -/
  | wake (now : Int)
  | test
  | lock
  | fire
  /-- The callback returns. -/
  | returned
  /-- `m_expired` is computed anew, and the timer enabled. -/
  | enableAgain (expired : Int)
  | add (timer : TimerPtr)
  | start (timer : TimerPtr) (expired : Int)
  | stop (timer : TimerPtr)
  /-- The first block of `remove_timer`. -/
  | removeDisable (timer : TimerPtr)
  /-- The second block of `remove_timer`. -/
  | removeErase (timer : TimerPtr)

def new : TimerSystem := ⟨.new, .sleeping, [], [], []⟩

/-- One step. -/
def step (kind : TimerPtr → Timer.Kind) (s : TimerSystem) : Action → Option TimerSystem
  | .wake now =>
      match s.thread with
      | .sleeping => some { s with thread := .testing now [] }
      | _ => none
  | .test =>
      match s.thread with
      | .testing now timers => some { s with
          thread := if s.manager.scanning then .locking now timers else .firing timers }
      | _ => none
  | .lock =>
      match s.thread with
      | .locking now timers => (s.manager.popDue now).map fun r => { s with
          manager := r.2
          thread := match r.1 with
            | some timer => .testing now (timers ++ [timer])
            | none => .firing timers }
      | _ => none
  | .fire =>
      match s.thread with
      | .firing [] => some { s with thread := .sleeping }
      | .firing (timer :: timers) => some { s with
          thread := .calling timer timers
          disturbed := if timer ∈ s.quiet then s.disturbed ++ [timer] else s.disturbed }
      | _ => none
  | .returned =>
      match s.thread with
      | .calling timer timers => some { s with
          thread := if kind timer = .CIRCLE then .enabling timer timers else .firing timers }
      | _ => none
  | .enableAgain expired =>
      match s.thread with
      | .enabling timer timers => some { s with
          manager := s.manager.enableTimer timer expired
          thread := .firing timers }
      | _ => none
  | .add timer => some { s with manager := s.manager.addTimer timer }
  | .start timer expired => some { s with
      manager := s.manager.enableTimer timer expired
      quiet := s.quiet.filter (· ≠ timer) }
  | .stop timer => (s.manager.disableTimer timer).map fun m => { s with
      manager := m
      quiet := timer :: s.quiet }
  | .removeDisable timer => (s.manager.disableTimer timer).map fun m => { s with
      manager := m
      removing := timer :: s.removing }
  | .removeErase timer =>
      if timer ∈ s.removing then some { s with
        manager := s.manager.eraseTimer timer
        removing := s.removing.erase timer
        quiet := timer :: s.quiet }
      else none

/-- The property. -/
def QuietKept (s : TimerSystem) : Prop :=
  s.disturbed = [] ∧ ∀ timer ∈ s.quiet, timer ∉ s.manager.activeTimers

instance : DecidablePred QuietKept := fun _ => inferInstanceAs (Decidable (_ ∧ _))

/-- The root is due at the time that the timer thread has read. -/
def rootDue (s : TimerSystem) : Bool :=
  match s.thread, s.manager.timers with
  | .locking now _, root :: _ => root.expired ≤ now
  | _, _ => false

/-- The condition on the state before a step. -/
def Undisturbed (kind : TimerPtr → Timer.Kind) (s : TimerSystem) : Action → Prop
  | .stop timer | .removeDisable timer => timer ∉ s.thread.holds kind
  | .lock => s.rootDue = true → 0 < s.manager.activedTimers
  | .start timer _ => timer ∉ s.removing
  | _ => True

instance (kind : TimerPtr → Timer.Kind) (s : TimerSystem) : DecidablePred (s.Undisturbed kind)
  | .stop _ => inferInstanceAs (Decidable (_ ∉ _))
  | .removeDisable _ => inferInstanceAs (Decidable (_ ∉ _))
  | .lock => inferInstanceAs (Decidable (_ → _))
  | .start _ _ => inferInstanceAs (Decidable (_ ∉ _))
  | .wake _ | .test | .fire | .returned | .enableAgain _ | .add _ | .removeErase _ =>
      isTrue trivial

/-- The invariant.  A timer that is quiet, or is being removed, is out of reach
of the timer thread. -/
structure Inv (kind : TimerPtr → Timer.Kind) (s : TimerSystem) : Prop where
  shaped : s.manager.Shaped
  undisturbed : s.disturbed = []
  idle : ∀ timer, timer ∈ s.quiet ∨ timer ∈ s.removing →
    timer ∉ s.manager.activeTimers ∧ timer ∉ s.thread.holds kind

variable {kind : TimerPtr → Timer.Kind} {s : TimerSystem}

theorem inv_new : new.Inv kind :=
  ⟨@TimerManager.shaped_ofParts [] [] List.nodup_nil, rfl, by
    rintro timer (h | h) <;> exact absurd h List.not_mem_nil⟩

/-- A step of the timer thread that collects no timer. -/
theorem Inv.move (h : s.Inv kind) {thread : RunThread}
    (hsub : ∀ timer ∈ thread.holds kind, timer ∈ s.thread.holds kind) :
    ({ s with thread } : TimerSystem).Inv kind :=
  ⟨h.shaped, h.undisturbed, fun timer ht =>
    ⟨(h.idle timer ht).1, fun hmem => (h.idle timer ht).2 (hsub timer hmem)⟩⟩

/-- A root that is not due ends the loop, active or not. -/
theorem popDue_of_not_rootDue {now : Int} {timers : List TimerPtr}
    (hthread : s.thread = .locking now timers) (hdue : s.rootDue ≠ true)
    {r : Option TimerPtr × TimerManager} (hpop : s.manager.popDue now = some r) :
    r = (none, s.manager) := by
  unfold rootDue at hdue
  rw [hthread] at hdue
  unfold TimerManager.popDue at hpop
  split at hpop
  · cases hpop
  · rename_i root rest htimers
    simp only [htimers] at hdue
    rw [if_neg fun hle => hdue (decide_eq_true hle)] at hpop
    exact (Option.some.inj hpop).symm

/-- A turn of the loop takes an active timer, or none. -/
theorem Inv.popDue (h : s.Inv kind) {now : Int} {timers : List TimerPtr}
    (hthread : s.thread = .locking now timers)
    (hok : s.rootDue = true → 0 < s.manager.activedTimers)
    {r : Option TimerPtr × TimerManager} (hpop : s.manager.popDue now = some r) :
    r.2.Shaped ∧ (r.1 = none → r.2 = s.manager) ∧
      ∀ t, r.1 = some t → t ∈ s.manager.activeTimers ∧
        ∀ u, u ∈ r.2.activeTimers → u ∈ s.manager.activeTimers ∧ u ≠ t := by
  by_cases hdue : s.rootDue = true
  · obtain ⟨r', hpop', hm, hnone, hsome⟩ := h.shaped.popDue (hok hdue) now
    obtain rfl : r' = r := Option.some.inj (hpop'.symm.trans hpop)
    exact ⟨hm, hnone, fun t ht => ⟨(hsome t ht).1, fun u hu => ((hsome t ht).2.2 u).mp hu⟩⟩
  · obtain rfl := popDue_of_not_rootDue hthread hdue hpop
    exact ⟨h.shaped, fun _ => rfl, fun t ht => by cases ht⟩

theorem Inv.lock (h : s.Inv kind) {now : Int} {timers : List TimerPtr}
    (hthread : s.thread = .locking now timers)
    (hok : s.rootDue = true → 0 < s.manager.activedTimers)
    {s' : TimerSystem} (hs : s.step kind .lock = some s') : s'.Inv kind := by
  have hholds : s.thread.holds kind = timers := by rw [hthread]; rfl
  simp only [step, hthread] at hs
  obtain ⟨⟨collected, m⟩, hpop, hs⟩ := Option.map_eq_some_iff.mp hs
  obtain ⟨hm, hnone, hsome⟩ := h.popDue hthread hok hpop
  subst hs
  cases collected with
  | none =>
    obtain rfl : m = s.manager := hnone rfl
    exact h.move fun timer ht => hholds ▸ ht
  | some t =>
    obtain ⟨ht, hactive⟩ := hsome t rfl
    refine ⟨hm, h.undisturbed, fun timer hidle => ?_⟩
    obtain ⟨hnot, hheld⟩ := h.idle timer hidle
    refine ⟨fun hmem => hnot (hactive timer hmem).1, fun hmem => ?_⟩
    rcases List.mem_append.mp (show timer ∈ timers ++ [t] from hmem) with hmem | hmem
    · exact hheld (hholds ▸ hmem)
    · obtain rfl := List.mem_singleton.mp hmem
      exact hnot ht

/-- `run` calls `time_out` on the next timer collected.  It holds that timer,
so the timer is not quiet. -/
theorem Inv.fire (h : s.Inv kind) {s' : TimerSystem} (hs : s.step kind .fire = some s') :
    s'.Inv kind := by
  simp only [step] at hs
  split at hs
  · rename_i hthread
    cases hs
    exact h.move fun timer ht => absurd ht List.not_mem_nil
  · rename_i t ts hthread
    cases hs
    have hholds : s.thread.holds kind = t :: ts := by rw [hthread]; rfl
    have hquiet : t ∉ s.quiet := fun hq =>
      (h.idle t (Or.inl hq)).2 (hholds ▸ List.mem_cons_self ..)
    rw [if_neg hquiet]
    refine h.move fun timer ht => ?_
    rw [hholds]
    rw [RunThread.holds_calling] at ht
    split at ht
    · exact ht
    · exact List.mem_cons_of_mem _ ht
  · cases hs

theorem Inv.returned (h : s.Inv kind) {s' : TimerSystem}
    (hs : s.step kind .returned = some s') : s'.Inv kind := by
  simp only [step] at hs
  split at hs
  · rename_i t ts hthread
    cases hs
    refine h.move fun timer ht => ?_
    rw [hthread, RunThread.holds_calling]
    split at ht
    · rename_i hkind
      rw [if_pos hkind]
      exact ht
    · rename_i hkind
      rw [if_neg hkind]
      exact ht
  · cases hs

/-- A timer becomes active that is neither quiet nor being removed afterwards. -/
theorem Inv.enable (h : s.Inv kind) {timer : TimerPtr} {expired : Int} {thread : RunThread}
    {quiet : List TimerPtr} (hthread : ∀ u ∈ thread.holds kind, u ∈ s.thread.holds kind)
    (hquiet : ∀ u ∈ quiet, u ∈ s.quiet ∧ u ≠ timer) (hremoving : timer ∉ s.removing) :
    ({ s with manager := s.manager.enableTimer timer expired, thread, quiet } :
      TimerSystem).Inv kind := by
  obtain ⟨hm, hactive⟩ := h.shaped.enableTimer timer expired
  refine ⟨hm, h.undisturbed, fun u hu => ?_⟩
  have hne : u ≠ timer := by
    rcases hu with hu | hu
    · exact (hquiet u hu).2
    · exact fun he => hremoving (he ▸ hu)
  have hidle := h.idle u (hu.imp_left fun hq => (hquiet u hq).1)
  refine ⟨fun hmem => ?_, fun hmem => hidle.2 (hthread u hmem)⟩
  rcases hactive u hmem with hmem | he
  · exact hidle.1 hmem
  · exact hne he

/-- A timer leaves the active ones that the timer thread does not hold. -/
theorem Inv.disable (h : s.Inv kind) {timer : TimerPtr} (hheld : timer ∉ s.thread.holds kind)
    {m : TimerManager} (hm : s.manager.disableTimer timer = some m)
    {quiet removing : List TimerPtr}
    (hidle : ∀ u, u ∈ quiet ∨ u ∈ removing → u = timer ∨ u ∈ s.quiet ∨ u ∈ s.removing) :
    ({ s with manager := m, quiet, removing } : TimerSystem).Inv kind := by
  obtain ⟨m', hm', hshaped, hactive⟩ := h.shaped.disableTimer timer
  obtain rfl : m = m' := Option.some.inj (hm.symm.trans hm')
  refine ⟨hshaped, h.undisturbed, fun u hu => ?_⟩
  rcases hidle u hu with rfl | hu
  · exact ⟨fun hmem => ((hactive u).mp hmem).2 rfl, hheld⟩
  · obtain ⟨hnot, hheld'⟩ := h.idle u hu
    exact ⟨fun hmem => hnot ((hactive u).mp hmem).1, hheld'⟩

theorem Inv.step (h : s.Inv kind) {a : Action} (hok : s.Undisturbed kind a) {s' : TimerSystem}
    (hs : s.step kind a = some s') : s'.Inv kind := by
  cases a with
  | wake now =>
    simp only [TimerSystem.step] at hs
    split at hs
    · cases hs
      exact h.move fun timer ht => absurd ht List.not_mem_nil
    · cases hs
  | test =>
    simp only [TimerSystem.step] at hs
    split at hs
    · rename_i now timers hthread
      cases hs
      refine h.move fun timer ht => ?_
      rw [hthread]
      split at ht <;> exact ht
    · cases hs
  | lock =>
    cases hthread : s.thread with
    | locking now timers => exact h.lock hthread hok hs
    | _ => simp [TimerSystem.step, hthread] at hs
  | fire => exact h.fire hs
  | returned => exact h.returned hs
  | enableAgain expired =>
    simp only [TimerSystem.step] at hs
    split at hs
    · rename_i t ts hthread
      cases hs
      have hholds : s.thread.holds kind = t :: ts := by rw [hthread]; rfl
      have hmem : t ∈ s.thread.holds kind := hholds ▸ List.mem_cons_self ..
      refine h.enable (fun u hu => hholds ▸ List.mem_cons_of_mem t hu) (fun u hu => ⟨hu, ?_⟩)
        (fun hr => (h.idle t (Or.inr hr)).2 hmem)
      rintro rfl
      exact (h.idle u (Or.inl hu)).2 hmem
    · cases hs
  | add timer =>
    cases hs
    obtain ⟨hm, hactive⟩ := h.shaped.addTimer timer
    refine ⟨hm, h.undisturbed, fun u hu => ?_⟩
    dsimp only
    rw [hactive]
    exact h.idle u hu
  | start timer expired =>
    cases hs
    refine h.enable (fun u hu => hu) (fun u hu => ?_) hok
    simpa using hu
  | stop timer =>
    obtain ⟨m, hm, rfl⟩ := Option.map_eq_some_iff.mp hs
    refine h.disable hok hm fun u hu => ?_
    rcases hu with hu | hu
    · exact (List.mem_cons.mp hu).imp_right Or.inl
    · exact Or.inr (Or.inr hu)
  | removeDisable timer =>
    obtain ⟨m, hm, rfl⟩ := Option.map_eq_some_iff.mp hs
    refine h.disable hok hm fun u hu => ?_
    rcases hu with hu | hu
    · exact Or.inr (Or.inl hu)
    · exact (List.mem_cons.mp hu).imp_right Or.inr
  | removeErase timer =>
    simp only [TimerSystem.step] at hs
    split at hs
    · rename_i hremoving
      cases hs
      obtain ⟨hm, hactive⟩ := h.shaped.eraseTimer (h.idle timer (Or.inr hremoving)).1
      refine ⟨hm, h.undisturbed, fun u hu => ?_⟩
      dsimp only
      rw [hactive]
      apply h.idle
      rcases hu with hu | hu
      · rcases List.mem_cons.mp hu with rfl | hu
        · exact Or.inr hremoving
        · exact Or.inl hu
      · exact Or.inr (List.mem_of_mem_erase hu)
    · cases hs

/-- In every undisturbed run no `time_out` is called on a quiet timer, and no
quiet timer is active. -/
theorem quietKept_of_undisturbed
    (h : ReachableIf (step kind) (Undisturbed kind) new s) : s.QuietKept := by
  have hinv : s.Inv kind := h.invariant inv_new fun _ _ _ hs hok hstep => hs.step hok hstep
  exact ⟨hinv.undisturbed, fun timer ht => (hinv.idle timer (Or.inl ht)).1⟩

/-- A timer fires, is enabled again, and is removed while `run` sleeps. -/
theorem quietKept_of_undisturbed_circle :
    ∃ s : TimerSystem, (s.quiet = [0] ∧ s.manager.timers = []) ∧ s.QuietKept := by
  obtain ⟨s, hs, hP⟩ : ∃ s,
      ReachableIf (step fun _ => .CIRCLE) (Undisturbed fun _ => .CIRCLE) new s ∧
      (s.quiet = [0] ∧ s.manager.timers = []) :=
    exists_reachable_of_run
      [.add 0, .start 0 10, .wake 15, .test, .lock, .test, .fire, .returned, .enableAgain 25,
        .fire, .removeDisable 0, .removeErase 0]
      (by decide +kernel)
  exact ⟨s, hP, quietKept_of_undisturbed hs⟩

/-- `stop` returns between the collection of its timer and the call of
`time_out`: the timer fires, and is enabled again. -/
theorem stopped_timer_fires : ∃ s, Reachable (step fun _ => .CIRCLE) new s ∧ ¬ s.QuietKept :=
  exists_reachable_of_run
    [.add 0, .start 0 10, .wake 15, .test, .lock, .test, .stop 0, .fire, .returned,
      .enableAgain 25]
    (by decide +kernel)

end TimerSystem

end CppRpc
