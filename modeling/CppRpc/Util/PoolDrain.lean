import Mathlib.Algebra.Order.Group.Multiset
import Mathlib.Data.List.ReduceOption
import Mathlib.Tactic.Abel
import CppRpc.Util.ThreadPool

/-!
# Every task once, and all of them before the end

A pool whose callers append tasks that are not empty and then call
`wait_for_job_finish`.  Each call of `append_task` has its own task, so a task
stands for one call.  The histories of `DrainSystem` record what happens to the
tasks.

`Drained` is the property: tasks leave the queue in the order in which they
came, no task begins twice, each accepted task is in exactly one place, and once
all workers have exited, the tasks whose `append_task` returned before `m_exit`
was set are done.  A worker that has found the queue empty tests `m_exit`
without a second look at the queue.  `TasksSeen` excludes that `m_exit` is set
while all workers are there and a task is queued, `drained_of_tasksSeen` is the
result, and `task_left_behind` a run with one worker and one task.

The accounting is by multisets.  `Worker.takes`, `begins` and `ends` are what a
step of a worker moves, and `Move.tasks_eq`, `Move.assigned_add` and
`Move.inTask_add` say where it goes.
-/

namespace CppRpc

open Runs

/-! ## What one step of a worker moves -/

namespace Worker

variable {τ : Type}

/-- The task that the next step takes off the queue. -/
def takes (p : ThreadPool τ) : Worker τ → List τ
  | .taking => p.tasks.takeTask.1.toList
  | _ => []

/-- The task that the next step begins. -/
def begins : Worker τ → List τ
  | .holding task => task.toList
  | _ => []

/-- The task that the next step ends. -/
def ends : Worker τ → List τ
  | .executing task => task.toList
  | _ => []

/-- The task taken and not yet begun. -/
def assigned : Worker τ → Multiset τ
  | .holding task => task.toList
  | _ => 0

/-- The task begun and not yet ended. -/
def inTask : Worker τ → Multiset τ
  | .executing task => task.toList
  | _ => 0

/-- Whether the worker exits without another `take_task`, when `m_exit` is
set. -/
def leaving : Worker τ → Bool
  | .testing | .testingAgain | .quitting | .exited => true
  | _ => false

variable {p p' : ThreadPool τ} {w w' : Worker τ}

theorem Move.exit_eq (h : Move p w w' p') : p'.exit = p.exit := by
  cases h <;> rfl

theorem Move.tasks_eq (h : Move p w w' p') :
    p.tasks.reduceOption = w.takes p ++ p'.tasks.reduceOption := by
  cases h with
  | takeNothing htask | take t htask =>
    cases htasks : p.tasks with
    | nil => simp [takes, htasks, TaskQueue.takeTask]
    | cons task rest => cases task <;> simp [takes, htasks, TaskQueue.takeTask]
  | _ => rfl

theorem Move.tasks_subset (h : Move p w w' p') {task : TaskType τ} (ht : task ∈ p'.tasks) :
    task ∈ p.tasks := by
  cases h with
  | takeNothing | take =>
    cases htasks : p.tasks with
    | nil => simp [htasks, TaskQueue.takeTask] at ht
    | cons first rest =>
      simp only [htasks, TaskQueue.takeTask] at ht
      exact List.mem_cons_of_mem first ht
  | _ => exact ht

theorem Move.assigned_add (h : Move p w w' p') :
    w'.assigned + (w.begins : Multiset τ) = w.assigned + (w.takes p : Multiset τ) := by
  cases h with
  | takeNothing htask | take t htask => simp [takes, begins, assigned, htask]
  | _ => simp [takes, begins, assigned]

theorem Move.inTask_add (h : Move p w w' p') :
    w'.inTask + (w.ends : Multiset τ) = w.inTask + (w.begins : Multiset τ) := by
  cases h <;> simp [ends, begins, inTask]

/-- A worker leaves only when it has found the queue empty. -/
theorem Move.tasks_eq_nil (h : Move p w w' p') (hsome : ∀ task ∈ p.tasks, task.isSome)
    (hw : w.leaving = false) (hw' : w'.leaving = true) : p.tasks = [] := by
  cases h with
  | takeNothing htask => exact TaskQueue.eq_nil_of_takeTask hsome htask
  | test | testExit | leave | reset | exit => cases hw
  | _ => cases hw'

/-- Before `m_exit` is set, a worker leaves no further than to the test. -/
theorem Move.eq_testing (h : Move p w w' p') (hexit : p.exit = false)
    (hw : w.leaving = true → w = .testing) (hw' : w'.leaving = true) : w' = .testing := by
  cases h with
  | takeNothing => rfl
  | testExit hset | leave hset => simp [hexit] at hset
  | exit => exact absurd (hw rfl) (by simp)
  | _ => cases hw'

end Worker


/-! ## The pool and its histories -/

/-- A pool with its histories: the tasks of all calls of `append_task`, those
pushed, in order, those whose call has returned, those whose call had returned
when `m_exit` was set, and those taken off the queue, begun and done. -/
structure DrainSystem (υ τ : Type) where
  sys : PoolSystem υ τ
  called : List τ
  accepted : List τ
  returned : List τ
  due : List τ
  taken : List τ
  began : List τ
  done : List τ

namespace DrainSystem

open PoolSystem (Action)

variable {υ τ : Type}

def new : DrainSystem υ τ := ⟨.new, [], [], [], [], [], [], []⟩

variable [Fintype υ]

/-- The tasks at the workers. -/
def atWorkers (s : DrainSystem υ τ) : Multiset τ :=
  total Worker.assigned s.sys.worker + total Worker.inTask s.sys.worker

/-- The property. -/
structure Drained (s : DrainSystem υ τ) : Prop where
  /-- The queue is left in the order of the calls. -/
  fifo : s.accepted = s.taken ++ s.sys.pool.tasks.reduceOption
  once : s.began.Nodup
  /-- Each accepted task is in one place. -/
  distinct : s.accepted.Nodup
  placed : (s.accepted : Multiset τ) = s.sys.pool.tasks.reduceOption + s.atWorkers + s.done
  drained : (∀ u, s.sys.worker u = .exited) → ∀ t ∈ s.due, t ∈ s.done

/-- The condition on the state before a step: `m_exit` is set while some worker
is not between an empty `take_task` and its test of `m_exit`, or no task whose
call has returned is queued. -/
def TasksSeen (s : DrainSystem υ τ) : Action υ τ → Prop
  | .shut => s.sys.shutdown = .storing →
      (∃ u, s.sys.worker u ≠ .testing) ∨ ∀ t ∈ s.returned, some t ∉ s.sys.pool.tasks
  | _ => True

instance [DecidableEq τ] (s : DrainSystem υ τ) : DecidablePred s.TasksSeen
  | .shut => inferInstanceAs (Decidable (_ → _))
  | .append _ | .push _ | .notify _ | .work _ | .quit | .waitForJobFinish => isTrue trivial

/-- One step.  No task is empty, each call has its own task, and nobody calls
`quit`. -/
def step [DecidableEq υ] [DecidableEq τ] (s : DrainSystem υ τ) :
    Action υ τ → Option (DrainSystem υ τ)
  | .append (some t) =>
      if t ∈ s.called then none
      else (s.sys.step (.append (some t))).map fun sys => { s with sys, called := t :: s.called }
  | .push (some t) => (s.sys.step (.push (some t))).map fun sys =>
      { s with sys, accepted := s.accepted ++ [t] }
  | .notify (some t) => (s.sys.step (.notify (some t))).map fun sys =>
      { s with sys, returned := s.returned ++ [t] }
  | .work u => (s.sys.step (.work u)).map fun sys =>
      { s with
        sys
        taken := s.taken ++ (s.sys.worker u).takes s.sys.pool
        began := s.began ++ (s.sys.worker u).begins
        done := s.done ++ (s.sys.worker u).ends }
  | .waitForJobFinish => (s.sys.step .waitForJobFinish).map fun sys => { s with sys }
  | .shut => (s.sys.step .shut).map fun sys =>
      { s with sys, due := if s.sys.shutdown = .storing then s.returned else s.due }
  | .append none | .push none | .notify none | .quit => none

/-- The invariant. -/
structure Inv (s : DrainSystem υ τ) : Prop where
  nonempty : ∀ task ∈ s.sys.pool.tasks, task.isSome
  fifo : s.accepted = s.taken ++ s.sys.pool.tasks.reduceOption
  called : s.called.Nodup
  fresh : (s.sys.checked.reduceOption : Multiset τ) + s.accepted ≤ s.called
  assigned : (s.taken : Multiset τ) = s.began + total Worker.assigned s.sys.worker
  inTask : (s.began : Multiset τ) = s.done + total Worker.inTask s.sys.worker
  returned : ∀ t, t ∈ s.returned ∨ some t ∈ s.sys.pushed → t ∈ s.accepted
  exit : s.sys.pool.exit = true → s.sys.shutdown ≠ .idle ∧ s.sys.shutdown ≠ .storing
  opened : s.sys.pool.exit = false → s.due = [] ∧
    ∀ u, (s.sys.worker u).leaving = true → s.sys.worker u = .testing
  due : ∀ t ∈ s.due, t ∈ s.accepted
  /-- A worker that will look again guards the tasks in the queue. -/
  guarded : s.sys.pool.exit = true →
    (∀ t ∈ s.due, t ∈ s.taken) ∨ ∃ u, (s.sys.worker u).leaving = false

variable {s : DrainSystem υ τ}

theorem inv_new : (new : DrainSystem υ τ).Inv where
  nonempty := by simp [new, PoolSystem.new, ThreadPool.new]
  fifo := rfl
  called := List.nodup_nil
  fresh := by simp [new, PoolSystem.new]
  assigned := by simp [new, PoolSystem.new, total, Worker.assigned]
  inTask := by simp [new, PoolSystem.new, total, Worker.inTask]
  returned := by simp [new, PoolSystem.new]
  exit := by simp [new, PoolSystem.new, ThreadPool.new]
  opened := fun _ => ⟨rfl, fun u hu => by cases hu⟩
  due := by simp [new]
  guarded := by simp [new, PoolSystem.new, ThreadPool.new]

theorem Inv.drained (h : s.Inv) : s.Drained := by
  have htaken : (s.taken : Multiset τ) = s.atWorkers + s.done := by
    rw [h.assigned, h.inTask, atWorkers]
    abel
  have hnodup : s.accepted.Nodup := by
    have hle : (s.accepted : Multiset τ) ≤ s.called :=
      le_trans (Multiset.le_add_left _ _) h.fresh
    exact Multiset.nodup_of_le hle h.called
  refine ⟨h.fifo, ?_, hnodup, ?_, fun hexited t ht => ?_⟩
  · have hle : (s.began : Multiset τ) ≤ s.accepted := by
      rw [h.fifo, ← Multiset.coe_add, h.assigned, add_assoc]
      exact Multiset.le_add_right _ _
    exact Multiset.nodup_of_le hle hnodup
  · rw [h.fifo, ← Multiset.coe_add, htaken]
    abel
  · have hzero : s.atWorkers = 0 := by
      rw [atWorkers, total_eq_zero, total_eq_zero, add_zero] <;> intro u <;> rw [hexited u] <;> rfl
    rw [hzero, zero_add] at htaken
    have hmem : t ∈ s.taken := by
      cases hexit : s.sys.pool.exit with
      | false =>
        rw [(h.opened hexit).1] at ht
        cases ht
      | true =>
        rcases h.guarded hexit with hguard | ⟨u, hu⟩
        · exact hguard t ht
        · rw [hexited u] at hu
          cases hu
    rw [← Multiset.mem_coe, htaken] at hmem
    exact hmem

/-- The other steps of the shutdown than the one that sets `m_exit`. -/
theorem Inv.goto (h : s.Inv) {shutdown : Shutdown} {condition : Condition}
    (hstay : s.sys.pool.exit = true → shutdown ≠ .idle ∧ shutdown ≠ .storing) :
    ({ s with sys := { s.sys with pool := { s.sys.pool with condition }, shutdown } } :
      DrainSystem υ τ).Inv :=
  ⟨h.nonempty, h.fifo, h.called, h.fresh, h.assigned, h.inTask, h.returned, hstay, h.opened,
    h.due, h.guarded⟩

theorem Inv.store (h : s.Inv) (hstoring : s.sys.shutdown = .storing)
    (hok : (∃ u, s.sys.worker u ≠ .testing) ∨ ∀ t ∈ s.returned, some t ∉ s.sys.pool.tasks) :
    ({ s with
      sys := { s.sys with pool := { s.sys.pool with exit := true }, shutdown := .polling }
      due := s.returned } : DrainSystem υ τ).Inv := by
  have hopen : s.sys.pool.exit = false := by
    cases hexit : s.sys.pool.exit with
    | false => rfl
    | true => exact absurd hstoring (h.exit hexit).2
  refine ⟨h.nonempty, h.fifo, h.called, h.fresh, h.assigned, h.inTask, h.returned,
    fun _ => ⟨by simp, by simp⟩, nofun, fun t ht => h.returned t (Or.inl ht), fun _ => ?_⟩
  rcases hok with ⟨u, hu⟩ | hseen
  · right
    refine ⟨u, ?_⟩
    cases hleaving : (s.sys.worker u).leaving with
    | false => rfl
    | true => exact absurd ((h.opened hopen).2 u hleaving) hu
  · left
    intro t ht
    have hmem := h.returned t (Or.inl ht)
    rw [h.fifo, List.mem_append, List.reduceOption_mem_iff] at hmem
    exact hmem.resolve_right (hseen t ht)

variable [DecidableEq υ] [DecidableEq τ]

theorem Inv.work (h : s.Inv) {u : υ} {s' : DrainSystem υ τ} (hs : s.step (.work u) = some s') :
    s'.Inv := by
  obtain ⟨sys, hsys, rfl⟩ := Option.map_eq_some_iff.mp hs
  obtain ⟨⟨w, p⟩, hr, rfl⟩ := Option.map_eq_some_iff.mp hsys
  have hmove := Worker.move_of_step hr
  have hexit := hmove.exit_eq
  have htasks := hmove.tasks_eq
  have hassigned := @total_update_add _ _ _ _ _ _ _ s.sys.worker _ _ _ _ hmove.assigned_add
  have hinTask := @total_update_add _ _ _ _ _ _ _ s.sys.worker _ _ _ _ hmove.inTask_add
  refine ⟨?_, ?_, h.called, h.fresh, ?_, ?_, h.returned, ?_, ?_, h.due, ?_⟩
  · exact fun task ht => h.nonempty task (hmove.tasks_subset ht)
  · dsimp only
    rw [h.fifo, htasks, List.append_assoc]
  · dsimp only
    rw [← Multiset.coe_add, ← Multiset.coe_add, h.assigned, add_assoc, ← hassigned]
    abel
  · dsimp only
    rw [← Multiset.coe_add, ← Multiset.coe_add, h.inTask, add_assoc, ← hinTask]
    abel
  · dsimp only
    rw [hexit]
    exact h.exit
  · intro hopen
    obtain ⟨hdue, hleaving⟩ := h.opened (hexit ▸ hopen)
    refine ⟨hdue, ?_⟩
    rw [Function.forall_update_iff s.sys.worker fun v w => w.leaving = true → w = .testing]
    exact ⟨hmove.eq_testing (hexit ▸ hopen) (hleaving u), fun v _ => hleaving v⟩
  · intro hset
    dsimp only
    rcases h.guarded (hexit ▸ hset) with hguard | ⟨v, hv⟩
    · exact Or.inl fun t ht => List.mem_append_left _ (hguard t ht)
    · by_cases hvu : v = u
      · subst hvu
        cases hw : w.leaving with
        | false => exact Or.inr ⟨v, by rw [Function.update_self, hw]⟩
        | true =>
          have hnil := hmove.tasks_eq_nil h.nonempty hv hw
          refine Or.inl fun t ht => List.mem_append_left _ ?_
          have hmem := h.due t ht
          rw [h.fifo, hnil] at hmem
          simpa using hmem
      · exact Or.inr ⟨v, by rw [Function.update_of_ne hvu, hv]⟩

theorem Inv.append (h : s.Inv) {t : τ} {s' : DrainSystem υ τ}
    (hs : s.step (.append (some t)) = some s') : s'.Inv := by
  simp only [step] at hs
  split at hs
  · cases hs
  · rename_i hnew
    cases hs
    have hcalled : (t :: s.called).Nodup := List.nodup_cons.mpr ⟨hnew, h.called⟩
    have hle : (s.called : Multiset τ) ≤ ((t :: s.called : List τ) : Multiset τ) :=
      Multiset.le_cons_self _ t
    cases hexit : s.sys.pool.exit with
    | true =>
      exact ⟨h.nonempty, h.fifo, hcalled, le_trans h.fresh hle, h.assigned, h.inTask, h.returned,
        h.exit, h.opened, h.due, h.guarded⟩
    | false =>
      refine ⟨h.nonempty, h.fifo, hcalled, ?_, h.assigned, h.inTask, h.returned, h.exit, h.opened,
        h.due, h.guarded⟩
      simp only [Bool.false_eq_true, if_false, List.reduceOption_cons_of_some]
      rw [← Multiset.cons_coe, ← Multiset.cons_coe, Multiset.cons_add]
      exact Multiset.cons_le_cons t h.fresh

theorem Inv.push (h : s.Inv) {t : τ} {s' : DrainSystem υ τ}
    (hs : s.step (.push (some t)) = some s') : s'.Inv := by
  obtain ⟨sys, hsys, rfl⟩ := Option.map_eq_some_iff.mp hs
  simp only [PoolSystem.step] at hsys
  split at hsys
  · rename_i hmem
    cases hsys
    refine ⟨fun task ht => ?_, ?_, h.called, ?_, h.assigned, h.inTask, fun u hu => ?_, h.exit,
      h.opened, fun u hu => List.mem_append_left _ (h.due u hu), h.guarded⟩
    · rcases List.mem_append.mp ht with ht | ht
      · exact h.nonempty task ht
      · rw [List.mem_singleton.mp ht]
        rfl
    · dsimp only [TaskQueue.appendTask]
      rw [h.fifo, List.reduceOption_append, List.append_assoc]
      rfl
    · have hperm := (List.perm_cons_erase hmem).filterMap id
      have hchecked : (s.sys.checked.reduceOption : Multiset τ) =
          t ::ₘ (s.sys.checked.erase (some t)).reduceOption := Multiset.coe_eq_coe.mpr hperm
      have hfresh := h.fresh
      rw [hchecked, Multiset.cons_add] at hfresh
      dsimp only
      rw [← Multiset.coe_add, ← add_assoc, Multiset.coe_singleton, add_comm, Multiset.singleton_add]
      exact hfresh
    · dsimp only at hu ⊢
      rcases hu with hu | hu
      · exact List.mem_append_left _ (h.returned u (Or.inl hu))
      · rcases List.mem_cons.mp hu with hu | hu
        · cases hu
          exact List.mem_append_right _ (List.mem_singleton.mpr rfl)
        · exact List.mem_append_left _ (h.returned u (Or.inr hu))
  · cases hsys

theorem Inv.notify (h : s.Inv) {t : τ} {s' : DrainSystem υ τ}
    (hs : s.step (.notify (some t)) = some s') : s'.Inv := by
  obtain ⟨sys, hsys, rfl⟩ := Option.map_eq_some_iff.mp hs
  simp only [PoolSystem.step] at hsys
  split at hsys
  · rename_i hmem
    cases hsys
    refine ⟨h.nonempty, h.fifo, h.called, h.fresh, h.assigned, h.inTask, fun u hu => ?_, h.exit,
      h.opened, h.due, h.guarded⟩
    apply h.returned
    rcases hu with hu | hu
    · rcases List.mem_append.mp hu with hu | hu
      · exact Or.inl hu
      · rw [List.mem_singleton.mp hu]
        exact Or.inr hmem
    · exact Or.inr (List.mem_of_mem_erase hu)
  · cases hsys

theorem Inv.shut (h : s.Inv) (hok : s.TasksSeen .shut) {s' : DrainSystem υ τ}
    (hs : s.step .shut = some s') : s'.Inv := by
  obtain ⟨sys, hsys, rfl⟩ := Option.map_eq_some_iff.mp hs
  change s.sys.shutStep = some sys at hsys
  unfold PoolSystem.shutStep at hsys
  split at hsys
  · cases hsys
  · rename_i hstoring
    cases hsys
    rw [if_pos hstoring]
    exact h.store hstoring (hok hstoring)
  · rename_i hpolling
    rw [if_neg (by simp [hpolling])]
    split at hsys
    · cases hsys
      exact h
    · cases hsys
      exact h.goto fun _ => by simp
  · rename_i hnotifying
    rw [if_neg (by simp [hnotifying])]
    cases hsys
    exact h.goto fun _ => by simp
  · rename_i hnotifying
    rw [if_neg (by simp [hnotifying])]
    cases hsys
    exact h.goto fun _ => by simp
  · rename_i hjoining
    rw [if_neg (by simp [hjoining])]
    split at hsys
    · cases hsys
      exact h.goto fun _ => by simp
    · cases hsys
  · cases hsys

theorem Inv.step (h : s.Inv) {a : Action υ τ} (hok : s.TasksSeen a) {s' : DrainSystem υ τ}
    (hs : s.step a = some s') : s'.Inv := by
  cases a with
  | append task =>
    cases task with
    | none => cases hs
    | some t => exact h.append hs
  | push task =>
    cases task with
    | none => cases hs
    | some t => exact h.push hs
  | notify task =>
    cases task with
    | none => cases hs
    | some t => exact h.notify hs
  | work u => exact h.work hs
  | quit => cases hs
  | waitForJobFinish =>
    obtain ⟨sys, hsys, rfl⟩ := Option.map_eq_some_iff.mp hs
    simp only [PoolSystem.step] at hsys
    split at hsys
    · rename_i hidle
      cases hsys
      exact h.goto fun hexit => absurd hidle (h.exit hexit).1
    · cases hsys
  | shut => exact h.shut hok hs

/-- In every run that sets `m_exit` while a worker will look at the queue again,
or with no finished call of `append_task` in the queue, all tasks are executed
once, in order, and before the end. -/
theorem drained_of_tasksSeen (h : ReachableIf step TasksSeen new s) : s.Drained :=
  (h.invariant inv_new fun _ _ _ h hok hs => h.step hok hs).drained

/-- The worker is asleep when the task arrives. -/
theorem drained_of_tasksSeen_one_task :
    ∃ s : DrainSystem (Fin 1) Nat, (s.due = [7] ∧ ∀ u, s.sys.worker u = .exited) ∧ s.Drained := by
  obtain ⟨s, hs, hP⟩ : ∃ s : DrainSystem (Fin 1) Nat, ReachableIf step TasksSeen new s ∧
      (s.due = [7] ∧ ∀ u, s.sys.worker u = .exited) :=
    exists_reachable_of_run
      [.work 0, .work 0, .work 0, .work 0, .work 0, .append (some 7), .push (some 7),
        .notify (some 7), .waitForJobFinish, .shut, .work 0, .work 0, .work 0, .work 0, .work 0,
        .work 0, .work 0, .work 0, .work 0, .work 0]
      (by decide +kernel)
  exact ⟨s, hP, drained_of_tasksSeen hs⟩

/-- The worker finds the queue empty, then the task arrives and `m_exit` is set,
and then the worker tests `m_exit`. -/
theorem task_left_behind :
    ∃ s : DrainSystem (Fin 1) Nat, Reachable step new s ∧ ¬ s.Drained := by
  obtain ⟨s, hs, hexited, hdue, hdone⟩ : ∃ s : DrainSystem (Fin 1) Nat, Reachable step new s ∧
      (∀ u, s.sys.worker u = .exited) ∧ 7 ∈ s.due ∧ 7 ∉ s.done :=
    exists_reachable_of_run
      [.work 0, .work 0, .append (some 7), .push (some 7), .notify (some 7), .waitForJobFinish,
        .shut, .work 0, .work 0, .work 0]
      (by decide +kernel)
  exact ⟨s, hs, fun h => hdone (h.drained hexited 7 hdue)⟩

end DrainSystem

end CppRpc
