import Mathlib.Data.Fintype.Basic
import CppRpc.Lib.Runs
import CppRpc.Lib.Totals
import CppRpc.Util.Condition

/-!
# `RPC_util/ThreadPool.hpp`

`TaskQueue` and `ThreadPool` as the code computes them.  A `Task_type` is an
`Option`: `none` is the empty function object, which `take_task` answers on an
empty queue and which a caller may also append.

`PoolSystem` is one pool with everybody who calls it: its workers in `do_work`,
any number of threads in `append_task`, and one thread in `quit` or
`wait_for_job_finish`.  A step is one access to a member, that is, one block
under a lock or one access to an atomic.  `Worker` and `Shutdown` say where a
thread stands between two of them.  Time is not here: a `sleep_for` is no step.

`Worker.Move` lists the steps of a worker one by one, and `move_of_step` lets
the proofs about the workers go by them.
-/

namespace CppRpc

open Runs

/-- A `Task_type`. -/
abbrev TaskType (τ : Type) := Option τ

/-! ## TaskQueue -/

/-- `TaskQueue`: `m_tasks`, the front first. -/
abbrev TaskQueue (τ : Type) := List (TaskType τ)

namespace TaskQueue

variable {τ : Type}

def appendTask (q : TaskQueue τ) (task : TaskType τ) : TaskQueue τ := q ++ [task]

def takeTask : TaskQueue τ → TaskType τ × TaskQueue τ
  | [] => (none, [])
  | task :: q => (task, q)

def clear (_ : TaskQueue τ) : TaskQueue τ := []

/-- Without empty tasks in it, a queue that hands out nothing is empty. -/
theorem eq_nil_of_takeTask {q : TaskQueue τ} (hsome : ∀ task ∈ q, task.isSome)
    (h : q.takeTask.1 = none) : q = [] := by
  cases q with
  | nil => rfl
  | cons task q =>
    have htask := hsome task (List.mem_cons_self ..)
    rw [show task = none from h] at htask
    cases htask

end TaskQueue

/-! ## ThreadPool -/

/-- `ThreadPool`: `m_condition`, `m_tasks`, `m_exit` and `m_running`. -/
structure ThreadPool (τ : Type) where
  condition : Condition
  tasks : TaskQueue τ
  exit : Bool
  running : Int

/-- The constructor, up to the start of the threads. -/
def ThreadPool.new {τ : Type} : ThreadPool τ := ⟨.new, [], false, 0⟩

/-- Where a thread stands in `do_work`. -/
inductive Worker (τ : Type)
  /-- Before the first `++m_running`. -/
  | starting
  /-- At the head of the loop. -/
  | taking
  /-- With an empty task, before the first test of `m_exit`. -/
  | testing
  /-- Before the second test. -/
  | testingAgain
  /-- Before the `--m_running` in front of `wait`. -/
  | pausing
  /-- At the call of `wait`. -/
  | entering
  /-- Blocked in `wait`. -/
  | blocked
  /-- Behind `wait`. -/
  | resuming
  /-- Before the `++m_running` in front of the task. -/
  | holding (task : TaskType τ)
  /-- In the task. -/
  | executing (task : TaskType τ)
  /-- Behind the task. -/
  | finishing
  /-- Before the last `--m_running`. -/
  | quitting
  | exited
  deriving DecidableEq

namespace Worker

variable {τ : Type}

/-- The next step of a worker, with the pool.  A call of an empty task throws. -/
def step (p : ThreadPool τ) : Worker τ → Option (Worker τ × ThreadPool τ)
  | .starting => some (.taking, { p with running := p.running + 1 })
  | .taking =>
      let r := p.tasks.takeTask
      some (if r.1.isNone then .testing else .holding r.1, { p with tasks := r.2 })
  | .testing => some (if p.exit then .testingAgain else .pausing, p)
  | .testingAgain => some (if p.exit then .quitting else .holding none, p)
  | .pausing => some (.entering, { p with running := p.running - 1 })
  | .entering =>
      match p.condition.wait? 1 with
      | some c => some (.resuming, { p with condition := c })
      | none => some (.blocked, p)
  | .blocked => (p.condition.wait? 1).map fun c => (.resuming, { p with condition := c })
  | .resuming => some (.taking, { p with running := p.running + 1 })
  | .holding task => some (.executing task, { p with running := p.running + 1 })
  | .executing task => if task.isNone then none else some (.finishing, p)
  | .finishing => some (.taking, { p with running := p.running - 1 })
  | .quitting => some (.exited, { p with running := p.running - 1 })
  | .exited => none

/-- The steps of a worker, one by one. -/
inductive Move (p : ThreadPool τ) : Worker τ → Worker τ → ThreadPool τ → Prop
  | start : Move p .starting .taking { p with running := p.running + 1 }
  | takeNothing : p.tasks.takeTask.1 = none →
      Move p .taking .testing { p with tasks := p.tasks.takeTask.2 }
  | take (t : τ) : p.tasks.takeTask.1 = some t →
      Move p .taking (.holding (some t)) { p with tasks := p.tasks.takeTask.2 }
  | test : p.exit = false → Move p .testing .pausing p
  | testExit : p.exit = true → Move p .testing .testingAgain p
  | leave : p.exit = true → Move p .testingAgain .quitting p
  | reset : p.exit = false → Move p .testingAgain (.holding none) p
  | pause : Move p .pausing .entering { p with running := p.running - 1 }
  | block : Move p .entering .blocked p
  | pass (c : Condition) : p.condition.pending = 1 → c.pending = 0 →
      Move p .entering .resuming { p with condition := c }
  | wake (c : Condition) : p.condition.pending = 1 → c.pending = 0 →
      Move p .blocked .resuming { p with condition := c }
  | resume : Move p .resuming .taking { p with running := p.running + 1 }
  | enter (task : TaskType τ) :
      Move p (.holding task) (.executing task) { p with running := p.running + 1 }
  | finish (t : τ) : Move p (.executing (some t)) .finishing p
  | next : Move p .finishing .taking { p with running := p.running - 1 }
  | exit : Move p .quitting .exited { p with running := p.running - 1 }

theorem move_of_step {p p' : ThreadPool τ} {w w' : Worker τ} (h : step p w = some (w', p')) :
    Move p w w' p' := by
  cases w with
  | taking =>
    cases h
    cases htask : p.tasks.takeTask.1 with
    | none => exact .takeNothing htask
    | some t => exact .take t htask
  | testing =>
    cases h
    split
    · exact .testExit ‹_›
    · exact .test (Bool.eq_false_iff.mpr ‹_›)
  | testingAgain =>
    cases h
    split
    · exact .leave ‹_›
    · exact .reset (Bool.eq_false_iff.mpr ‹_›)
  | entering =>
    rw [step] at h
    split at h
    · rename_i c hwait
      cases h
      exact .pass c (Condition.wait?_eq_some hwait).1 (Condition.wait?_eq_some hwait).2
    · cases h
      exact .block
  | blocked =>
    obtain ⟨c, hwait, h⟩ := Option.map_eq_some_iff.mp h
    cases h
    exact .wake c (Condition.wait?_eq_some hwait).1 (Condition.wait?_eq_some hwait).2
  | executing task =>
    cases task with
    | none => cases h
    | some t =>
      cases h
      exact .finish t
  | exited => cases h
  | _ =>
    cases h
    constructor

end Worker

/-- Where the thread in `quit` or `wait_for_job_finish` stands. -/
inductive Shutdown
  | idle
  /-- Before `m_exit.store(true)`. -/
  | storing
  /-- In the loop on `m_running`. -/
  | polling
  /-- In the loop of `notify_all`, with `left` calls to come. -/
  | notifying (left : Nat)
  /-- In the loop of `join`. -/
  | joining
  | returned
  deriving DecidableEq

/-- A pool and the threads that work on it.  `checked` are the tasks of the
calls of `append_task` between the test of `m_exit` and the queue, and `pushed`
those between the queue and `notify_all`. -/
structure PoolSystem (υ τ : Type) where
  pool : ThreadPool τ
  worker : υ → Worker τ
  checked : List (TaskType τ)
  pushed : List (TaskType τ)
  shutdown : Shutdown

namespace PoolSystem

variable {υ τ : Type}

inductive Action (υ τ : Type)
  /-- `append_task` is called and tests `m_exit`. -/
  | append (task : TaskType τ)
  | push (task : TaskType τ)
  /-- The `notify_all` of `append_task`. -/
  | notify (task : TaskType τ)
  | work (u : υ)
  /-- `quit` is called and clears the queue. -/
  | quit
  | waitForJobFinish
  /-- The next step of the thread in `quit` or `wait_for_job_finish`. -/
  | shut

/-- The threads have been started. -/
def new : PoolSystem υ τ := ⟨.new, fun _ => .starting, [], [], .idle⟩

variable [Fintype υ] [DecidableEq υ] [DecidableEq τ]

/-- The next step of the thread in `quit` or `wait_for_job_finish`. -/
def shutStep (s : PoolSystem υ τ) : Option (PoolSystem υ τ) :=
  match s.shutdown with
  | .idle => none
  | .storing => some { s with pool := { s.pool with exit := true }, shutdown := .polling }
  | .polling =>
      if s.pool.running ≠ 0 then some s
      else some { s with shutdown := .notifying (Fintype.card υ) }
  | .notifying 0 => some { s with shutdown := .joining }
  | .notifying (left + 1) => some { s with
      pool := { s.pool with condition := s.pool.condition.notify 1 }
      shutdown := .notifying left }
  | .joining => if ∀ u, s.worker u = .exited then some { s with shutdown := .returned } else none
  | .returned => none

/-- One step. -/
def step (s : PoolSystem υ τ) : Action υ τ → Option (PoolSystem υ τ)
  | .append task => some (if s.pool.exit then s else { s with checked := task :: s.checked })
  | .push task =>
      if task ∈ s.checked then
        some { s with
          pool := { s.pool with tasks := s.pool.tasks.appendTask task }
          checked := s.checked.erase task
          pushed := task :: s.pushed }
      else none
  | .notify task =>
      if task ∈ s.pushed then
        some { s with
          pool := { s.pool with condition := s.pool.condition.notify 1 }
          pushed := s.pushed.erase task }
      else none
  | .work u => ((s.worker u).step s.pool).map fun r =>
      { s with pool := r.2, worker := Function.update s.worker u r.1 }
  | .quit =>
      if s.shutdown = .idle then
        some { s with
          pool := { s.pool with tasks := s.pool.tasks.clear }
          shutdown := .storing }
      else none
  | .waitForJobFinish =>
      if s.shutdown = .idle then some { s with shutdown := .storing } else none
  | .shut => s.shutStep

end PoolSystem

end CppRpc
