import CppRpc.Util.PoolProgress

/-!
# The start of the poll threads

`IoService::IoService` gives its pool of `threads` workers as many tasks, one
after the other, and each task is `poll`.  Here are the runs in which no `poll`
returns, so `epoll_wait` does not fail and `m_exit` is not set.  A wake-up that
collapses with another one in `m_ready` leaves a `poll` in the queue of a pool
before its shutdown until some task is over (`finishes_of_reachable`), and here
none ever is.

A run of the constructor is a run of `DrainSystem` whose steps meet `Starting`.
`Started` is the property of its end: every `poll` is with one worker or in the
queue, the workers without one sleep, and there is one worker in `poll` at
least.  `started_of_reachable` says that the constructor and the workers come to
this end whatever their order, after `effort` steps at most.
`started_of_reachable_one_poll` is an end with one of two.
-/

namespace CppRpc

open Runs

/-- The worker is in its task. -/
def Worker.inPoll {τ : Type} : Worker τ → Bool
  | .executing _ => true
  | _ => false

theorem Worker.ends_of_inPoll {τ : Type} {w : Worker τ} (h : w.inPoll = false) : w.ends = [] := by
  cases w with
  | executing => cases h
  | _ => rfl

/-- The pool of an `IoService`, with its constructor.  The tasks are the numbers
of the turns of the loop in the constructor. -/
abbrev IoPool (υ : Type) : Type := DrainSystem υ Nat

namespace IoPool

open PoolSystem (Action)

variable {υ : Type} [Fintype υ]

/-- The steps.  A call of `append_task` comes behind the one before, there are as
many calls as workers, and no worker leaves `poll`. -/
def Starting (s : IoPool υ) : Action υ Nat → Prop
  | .append task => task = some s.called.length ∧ s.called.length < Fintype.card υ ∧
      s.sys.checked = [] ∧ s.sys.pushed = []
  | .push _ | .notify _ => True
  | .work u => (s.sys.worker u).inPoll = false
  | .quit | .waitForJobFinish | .shut => False

instance (s : IoPool υ) : DecidablePred s.Starting
  | .append _ => inferInstanceAs (Decidable (_ ∧ _))
  | .push _ | .notify _ => isTrue trivial
  | .work u => inferInstanceAs (Decidable ((s.sys.worker u).inPoll = false))
  | .quit | .waitForJobFinish | .shut => isFalse id

/-- The property. -/
structure Started (s : IoPool υ) : Prop where
  appended : s.called.length = Fintype.card υ
  once : (s.sys.pool.tasks.reduceOption : Multiset Nat) + total Worker.inTask s.sys.worker =
    Multiset.range (Fintype.card υ)
  asleep : ∀ u, (s.sys.worker u).inPoll = true ∨ s.sys.worker u = .blocked
  polling : ∃ u, (s.sys.worker u).inPoll = true

/-- What is left to do up to the end of the start. -/
def effort (s : IoPool υ) : Nat :=
  13 * (Fintype.card υ - s.called.length) + DrainSystem.effort s

/-- The invariant. -/
structure Inv (s : IoPool υ) : Prop where
  lively : s.Lively
  numbered : (s.called : Multiset Nat) = Multiset.range s.called.length
  le : s.called.length ≤ Fintype.card υ
  done : s.done = []

variable {s s' : IoPool υ} [DecidableEq υ]

omit [DecidableEq υ] in
theorem inv_new : Inv (DrainSystem.new : IoPool υ) :=
  ⟨DrainSystem.lively_new, rfl, Nat.zero_le _, rfl⟩

theorem Inv.step (h : Inv s) {a : Action υ Nat} (hok : Starting s a)
    (hs : DrainSystem.step s a = some s') : Inv s' ∧ effort s' < effort s := by
  cases a with
  | append task =>
    obtain ⟨rfl, hlt, hchecked, hpushed⟩ := hok
    have hlively := h.lively.append hs
    have hexit := h.lively.watched.opened
    simp only [DrainSystem.step] at hs
    split at hs
    · cases hs
    · cases hs
      simp only [hexit, Bool.false_eq_true, if_false] at hlively ⊢
      refine ⟨⟨hlively, ?_, hlt, h.done⟩, ?_⟩
      · dsimp only
        rw [List.length_cons, Multiset.range_succ, ← h.numbered, Multiset.cons_coe]
      · simp only [effort, DrainSystem.effort, List.length_cons]
        omega
  | push task =>
    obtain ⟨hlively, hlt⟩ := h.lively.working (a := .push task) trivial hs
    cases task with
    | none => cases hs
    | some t =>
      obtain ⟨sys, -, rfl⟩ := Option.map_eq_some_iff.mp hs
      exact ⟨⟨hlively, h.numbered, h.le, h.done⟩, Nat.add_lt_add_left hlt _⟩
  | notify task =>
    obtain ⟨hlively, hlt⟩ := h.lively.working (a := .notify task) trivial hs
    cases task with
    | none => cases hs
    | some t =>
      obtain ⟨sys, -, rfl⟩ := Option.map_eq_some_iff.mp hs
      exact ⟨⟨hlively, h.numbered, h.le, h.done⟩, Nat.add_lt_add_left hlt _⟩
  | work u =>
    obtain ⟨hlively, hlt⟩ := h.lively.work hs
    obtain ⟨sys, -, rfl⟩ := Option.map_eq_some_iff.mp hs
    refine ⟨⟨hlively, h.numbered, h.le, ?_⟩, Nat.add_lt_add_left hlt _⟩
    show s.done ++ (s.sys.worker u).ends = []
    rw [h.done, Worker.ends_of_inPoll hok]
    rfl
  | quit | waitForJobFinish | shut => exact absurd hok id

/-- At the end the calls are over, and a worker that is not in `poll` sleeps. -/
theorem Inv.asleep_of_atRest (h : Inv s) (hrest : AtRest DrainSystem.step Starting s) :
    s.sys.checked = [] ∧ s.sys.pushed = [] ∧ s.called.length = Fintype.card υ ∧
      ∀ u, (s.sys.worker u).inPoll = true ∨
        s.sys.worker u = .blocked ∧ s.sys.pool.condition.ready ≠ 1 := by
  obtain ⟨hchecked, hpushed⟩ := h.lively.calls_eq_nil
    (fun t => hrest (.push (some t)) trivial) fun t => hrest (.notify (some t)) trivial
  refine ⟨hchecked, hpushed, ?_, fun u => ?_⟩
  · have hle : s.called.length ≤ Fintype.card υ := h.le
    by_contra hne
    have hnew : s.called.length ∉ s.called := by
      rw [← Multiset.mem_coe, h.numbered, Multiset.mem_range]
      exact Nat.lt_irrefl _
    have hstep := hrest (.append (some s.called.length)) ⟨rfl, by omega, hchecked, hpushed⟩
    simp [DrainSystem.step, PoolSystem.step, hnew] at hstep
  · cases hpoll : (s.sys.worker u).inPoll with
    | true => exact Or.inl rfl
    | false =>
      right
      have hstep := hrest (.work u) hpoll
      have hnone : (s.sys.worker u).step s.sys.pool = none := by
        simpa [DrainSystem.step, PoolSystem.step] using hstep
      exact Worker.eq_blocked_of_step hnone (h.lively.watched.leaving u)
        (h.lively.watched.holding u)

theorem Inv.started [Nonempty υ] (h : Inv s) (hrest : AtRest DrainSystem.step Starting s) :
    Started s := by
  obtain ⟨hchecked, hpushed, hcalled, hasleep⟩ := h.asleep_of_atRest hrest
  have hassigned : total Worker.assigned s.sys.worker = 0 := by
    apply total_eq_zero
    intro u
    rcases hasleep u with hpoll | ⟨hblocked, -⟩
    · cases hw : s.sys.worker u with
      | executing task => rfl
      | _ =>
        rw [hw] at hpoll
        cases hpoll
    · rw [hblocked]
      rfl
  have honce : (s.sys.pool.tasks.reduceOption : Multiset Nat) + total Worker.inTask s.sys.worker =
      Multiset.range (Fintype.card υ) :=
    calc (s.sys.pool.tasks.reduceOption : Multiset Nat) + total Worker.inTask s.sys.worker
        = s.sys.pool.tasks.reduceOption + s.began := by
          rw [h.lively.inv.inTask, h.done]
          exact congrArg _ (zero_add _).symm
      _ = s.taken + s.sys.pool.tasks.reduceOption := by
          rw [h.lively.inv.assigned, hassigned, add_zero, add_comm]
      _ = s.accepted := by rw [h.lively.inv.fifo, Multiset.coe_add]
      _ = s.called := by
          rw [h.lively.called, hchecked]
          exact (zero_add _).symm
      _ = Multiset.range (Fintype.card υ) := by rw [h.numbered, hcalled]
  refine ⟨hcalled, honce, fun u => (hasleep u).imp_right And.left, ?_⟩
  -- with all workers asleep and nobody to wake them, the queue would be empty
  by_contra hnone
  have hsleep : ∀ u, s.sys.worker u = .blocked ∧ s.sys.pool.condition.ready ≠ 1 :=
    fun u => (hasleep u).resolve_left fun hpoll => hnone ⟨u, hpoll⟩
  have hnil : s.sys.pool.tasks = [] := by
    obtain ⟨v⟩ := ‹Nonempty υ›
    rcases h.lively.watched.watched with hnil | howed | hready | ⟨u, hu⟩
    · exact hnil
    · exact absurd hpushed howed
    · exact absurd hready (hsleep v).2
    · rw [(hsleep u).1] at hu
      cases hu
  have hinTask : total Worker.inTask s.sys.worker = 0 :=
    total_eq_zero fun u => by rw [(hsleep u).1]; rfl
  rw [hnil, hinTask, add_zero] at honce
  have hcard := congrArg Multiset.card honce
  rw [Multiset.card_range] at hcard
  exact Fintype.card_ne_zero hcard.symm

/-- The constructor and the workers come to an end, in any order, and there one
worker at least is in `poll`, and each `poll` is with one worker or in the
queue. -/
theorem started_of_reachable [Nonempty υ]
    (h : ReachableIf DrainSystem.step Starting DrainSystem.new s) :
    Settles DrainSystem.step Starting (effort s) Started s := by
  have hinv : Inv s := h.invariant inv_new fun _ _ _ h hok hs => (h.step hok hs).1
  exact settles_of_rank Inv effort (fun _ _ _ h hok hs => h.step hok hs)
    (fun _ h hrest => h.started hrest) hinv

/-- Both workers sleep before the constructor appends, and the two wake-ups are
one: worker 0 is in `poll`, and worker 1 sleeps beside the other `poll`. -/
theorem started_of_reachable_one_poll :
    ∃ s : IoPool (Fin 2), (s.sys.worker 0 = .executing (some 0) ∧ s.sys.worker 1 = .blocked ∧
        s.sys.pool.tasks = [some 1] ∧ s.sys.pool.condition.ready ≠ 1 ∧ s.sys.pushed = []) ∧
      Settles DrainSystem.step Starting (effort s) Started s := by
  obtain ⟨s, hs, hP⟩ : ∃ s : IoPool (Fin 2),
      ReachableIf DrainSystem.step Starting DrainSystem.new s ∧
        (s.sys.worker 0 = .executing (some 0) ∧ s.sys.worker 1 = .blocked ∧
          s.sys.pool.tasks = [some 1] ∧ s.sys.pool.condition.ready ≠ 1 ∧ s.sys.pushed = []) :=
    exists_reachable_of_run
      [.work 0, .work 0, .work 0, .work 0, .work 0, .work 1, .work 1, .work 1, .work 1, .work 1,
        .append (some 0), .push (some 0), .notify (some 0), .append (some 1), .push (some 1),
        .notify (some 1), .work 0, .work 0, .work 0, .work 0]
      (by decide +kernel)
  exact ⟨s, hP, started_of_reachable hs⟩

end IoPool

end CppRpc
