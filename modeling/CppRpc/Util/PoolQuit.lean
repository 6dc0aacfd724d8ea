import CppRpc.Util.PoolDrain

/-!
# What `quit` does with the tasks

`quit`, which is also the destructor, clears the queue and then sets `m_exit`,
while other threads may be in `append_task` and workers in `take_task`.  The
histories of `QuitSystem` record what happens to the tasks; a task stands for
one call of `append_task`, and empty tasks may be among them.

`Settled` is the property: the queue is left in the order of the calls, by a
worker or all at once by `clear`, no task begins twice, one that was discarded
never begins, and each accepted task is in exactly one place.  When `quit`
returns, every task that has begun is done, and every task that had been
accepted before the call is done or discarded.  `settled_of_reachable` says that
this holds in every run.  A task that is appended behind `clear` may stay in the
queue for good, so nothing is said about it.
-/

namespace CppRpc

open Runs

/-- A pool with its histories: the tasks of all calls of `append_task`, those
pushed, in order, those pushed before the queue was cleared, and those taken off
the queue, discarded, begun and done. -/
structure QuitSystem (υ τ : Type) where
  sys : PoolSystem υ τ
  called : List τ
  accepted : List τ
  earlier : List τ
  taken : List τ
  discarded : List τ
  began : List τ
  done : List τ

namespace QuitSystem

open PoolSystem (Action)

variable {υ τ : Type}

def new : QuitSystem υ τ := ⟨.new, [], [], [], [], [], [], []⟩

variable [Fintype υ]

/-- The tasks at the workers. -/
def atWorkers (s : QuitSystem υ τ) : Multiset τ :=
  total Worker.assigned s.sys.worker + total Worker.inTask s.sys.worker

/-- The property. -/
structure Settled (s : QuitSystem υ τ) : Prop where
  /-- The discarded tasks leave the queue together, behind those taken before. -/
  fifo : ∃ before after, s.taken = before ++ after ∧
    s.accepted = before ++ s.discarded ++ after ++ s.sys.pool.tasks.reduceOption
  once : s.began.Nodup
  discarded : ∀ t ∈ s.discarded, t ∉ s.began
  /-- Each accepted task is in one place. -/
  distinct : s.accepted.Nodup
  placed : (s.accepted : Multiset τ) =
    s.sys.pool.tasks.reduceOption + s.atWorkers + s.done + s.discarded
  returned : s.sys.shutdown = .returned →
    (s.began : Multiset τ) = s.done ∧ ∀ t ∈ s.earlier, t ∈ s.done ∨ t ∈ s.discarded

/-- One step.  Each call of `append_task` has its own task. -/
def step [DecidableEq υ] [DecidableEq τ] (s : QuitSystem υ τ) :
    Action υ τ → Option (QuitSystem υ τ)
  | .append task =>
      if ∀ t ∈ task, t ∉ s.called then
        (s.sys.step (.append task)).map fun sys =>
          { s with sys, called := task.toList ++ s.called }
      else none
  | .push task => (s.sys.step (.push task)).map fun sys =>
      { s with sys, accepted := s.accepted ++ task.toList }
  | .notify task => (s.sys.step (.notify task)).map fun sys => { s with sys }
  | .work u => (s.sys.step (.work u)).map fun sys =>
      { s with
        sys
        taken := s.taken ++ (s.sys.worker u).takes s.sys.pool
        began := s.began ++ (s.sys.worker u).begins
        done := s.done ++ (s.sys.worker u).ends }
  | .quit => (s.sys.step .quit).map fun sys =>
      { s with sys, earlier := s.accepted, discarded := s.sys.pool.tasks.reduceOption }
  | .waitForJobFinish => (s.sys.step .waitForJobFinish).map fun sys => { s with sys }
  | .shut => (s.sys.step .shut).map fun sys => { s with sys }

/-- The invariant. -/
structure Inv (s : QuitSystem υ τ) : Prop where
  fifo : ∃ before after, s.taken = before ++ after ∧
    s.accepted = before ++ s.discarded ++ after ++ s.sys.pool.tasks.reduceOption
  idle : s.sys.shutdown = .idle → s.discarded = []
  called : s.called.Nodup
  fresh : (s.sys.checked.reduceOption : Multiset τ) + s.accepted ≤ s.called
  assigned : (s.taken : Multiset τ) = s.began + total Worker.assigned s.sys.worker
  inTask : (s.began : Multiset τ) = s.done + total Worker.inTask s.sys.worker
  earlier : ∀ t ∈ s.earlier, t ∈ s.taken ∨ t ∈ s.discarded
  returned : s.sys.shutdown = .returned → ∀ u, s.sys.worker u = .exited

variable {s s' : QuitSystem υ τ}

theorem inv_new : (new : QuitSystem υ τ).Inv where
  fifo := ⟨[], [], rfl, rfl⟩
  idle _ := rfl
  called := List.nodup_nil
  fresh := by simp [new, PoolSystem.new]
  assigned := by simp [new, PoolSystem.new, total, Worker.assigned]
  inTask := by simp [new, PoolSystem.new, total, Worker.inTask]
  earlier := nofun
  returned := nofun

theorem Inv.settled (h : s.Inv) : s.Settled := by
  obtain ⟨before, after, htaken, haccepted⟩ := h.fifo
  have hplaced : (s.accepted : Multiset τ) =
      s.sys.pool.tasks.reduceOption + s.taken + s.discarded := by
    rw [haccepted, htaken]
    simp only [← Multiset.coe_add]
    abel
  have hdistinct : s.accepted.Nodup := by
    have hle : (s.accepted : Multiset τ) ≤ s.called :=
      le_trans (Multiset.le_add_left _ _) h.fresh
    exact Multiset.nodup_of_le hle h.called
  have hbegan : (s.began : Multiset τ) + s.discarded ≤ s.accepted := by
    rw [hplaced, h.assigned]
    have hle := Multiset.le_add_right ((s.began : Multiset τ) + (s.discarded : Multiset τ))
      ((s.sys.pool.tasks.reduceOption : Multiset τ) + total Worker.assigned s.sys.worker)
    refine le_trans hle (le_of_eq ?_)
    abel
  have hnodup : (s.began ++ s.discarded).Nodup := Multiset.nodup_of_le hbegan hdistinct
  refine ⟨h.fifo, (List.nodup_append'.mp hnodup).1, ?_, hdistinct, ?_, fun hreturned => ?_⟩
  · intro t ht hbegan
    exact (List.nodup_append'.mp hnodup).2.2 hbegan ht
  · rw [hplaced, h.assigned, h.inTask, atWorkers]
    abel
  · have hexited := h.returned hreturned
    have hassigned : total Worker.assigned s.sys.worker = 0 :=
      total_eq_zero fun u => by rw [hexited u]; rfl
    have hinTask : total Worker.inTask s.sys.worker = 0 :=
      total_eq_zero fun u => by rw [hexited u]; rfl
    have hdone : (s.began : Multiset τ) = s.done := by rw [h.inTask, hinTask, add_zero]
    refine ⟨hdone, fun t ht => (h.earlier t ht).imp_left fun htaken => ?_⟩
    rw [← Multiset.mem_coe, h.assigned, hassigned, add_zero, hdone] at htaken
    exact htaken

/-- A step of a caller or of the shutdown. -/
theorem Inv.keep (h : s.Inv) {condition : Condition} {exit : Bool} {shutdown : Shutdown}
    (hidle : shutdown = .idle → s.sys.shutdown = .idle)
    (hreturned : shutdown = .returned → ∀ u, s.sys.worker u = .exited) :
    ({ s with sys := { s.sys with
      pool := { s.sys.pool with condition, exit }, shutdown } } : QuitSystem υ τ).Inv :=
  ⟨h.fifo, fun hs => h.idle (hidle hs), h.called, h.fresh, h.assigned, h.inTask, h.earlier,
    hreturned⟩

variable [DecidableEq υ] [DecidableEq τ]

theorem Inv.append (h : s.Inv) {task : TaskType τ} (hs : s.step (.append task) = some s') :
    s'.Inv := by
  simp only [step] at hs
  split at hs
  · rename_i hnew
    cases hs
    have hcalled : (task.toList ++ s.called).Nodup := by
      cases task with
      | none => exact h.called
      | some t => exact List.nodup_cons.mpr ⟨hnew t rfl, h.called⟩
    have hle : (s.called : Multiset τ) ≤ ((task.toList ++ s.called : List τ) : Multiset τ) := by
      rw [← Multiset.coe_add]
      exact Multiset.le_add_left _ _
    split
    · exact ⟨h.fifo, h.idle, hcalled, le_trans h.fresh hle, h.assigned, h.inTask, h.earlier,
        h.returned⟩
    · refine ⟨h.fifo, h.idle, hcalled, ?_, h.assigned, h.inTask, h.earlier, h.returned⟩
      have hchecked : ((task :: s.sys.checked).reduceOption : Multiset τ) =
          (task.toList : Multiset τ) + s.sys.checked.reduceOption := by
        cases task <;> rfl
      dsimp only
      rw [hchecked, ← Multiset.coe_add, add_assoc]
      exact add_le_add_right h.fresh _
  · cases hs

theorem Inv.push (h : s.Inv) {task : TaskType τ} (hs : s.step (.push task) = some s') :
    s'.Inv := by
  obtain ⟨sys, hsys, rfl⟩ := Option.map_eq_some_iff.mp hs
  simp only [PoolSystem.step] at hsys
  split at hsys
  · rename_i hmem
    cases hsys
    obtain ⟨before, after, htaken, haccepted⟩ := h.fifo
    have hqueue : (s.sys.pool.tasks.appendTask task).reduceOption =
        s.sys.pool.tasks.reduceOption ++ task.toList := by
      rw [TaskQueue.appendTask, List.reduceOption_append]
      cases task <;> rfl
    refine ⟨⟨before, after, htaken, ?_⟩, h.idle, h.called, ?_, h.assigned, h.inTask, h.earlier,
      h.returned⟩
    · dsimp only
      rw [hqueue, haccepted, List.append_assoc _ _ task.toList]
    · have hchecked : (s.sys.checked.reduceOption : Multiset τ) =
          (task.toList : Multiset τ) + (s.sys.checked.erase task).reduceOption := by
        have hperm := (List.perm_cons_erase hmem).filterMap id
        rw [List.reduceOption, Multiset.coe_eq_coe.mpr hperm]
        cases task <;> rfl
      have hfresh := h.fresh
      dsimp only
      rw [← Multiset.coe_add, ← add_assoc, add_right_comm, add_comm _ (task.toList : Multiset τ),
        ← hchecked]
      exact hfresh
  · cases hsys

theorem Inv.work (h : s.Inv) {u : υ} (hs : s.step (.work u) = some s') : s'.Inv := by
  obtain ⟨sys, hsys, rfl⟩ := Option.map_eq_some_iff.mp hs
  obtain ⟨⟨w, p⟩, hr, rfl⟩ := Option.map_eq_some_iff.mp hsys
  have hmove := Worker.move_of_step hr
  have hassigned := @total_update_add _ _ _ _ _ _ _ s.sys.worker _ _ _ _ hmove.assigned_add
  have hinTask := @total_update_add _ _ _ _ _ _ _ s.sys.worker _ _ _ _ hmove.inTask_add
  obtain ⟨before, after, htaken, haccepted⟩ := h.fifo
  refine ⟨⟨before, after ++ (s.sys.worker u).takes s.sys.pool, ?_, ?_⟩, h.idle, h.called, h.fresh,
    ?_, ?_, fun t ht => ?_, fun hreturned => ?_⟩
  · dsimp only
    rw [htaken, List.append_assoc]
  · dsimp only
    rw [haccepted, hmove.tasks_eq]
    simp only [List.append_assoc]
  · dsimp only
    rw [← Multiset.coe_add, ← Multiset.coe_add, h.assigned, add_assoc, ← hassigned]
    abel
  · dsimp only
    rw [← Multiset.coe_add, ← Multiset.coe_add, h.inTask, add_assoc, ← hinTask]
    abel
  · exact (h.earlier t ht).imp_left (List.mem_append_left _)
  · -- A worker that has exited takes no step.
    have hexited := h.returned hreturned u
    rw [hexited] at hr
    cases hr

theorem Inv.quit (h : s.Inv) (hs : s.step .quit = some s') : s'.Inv := by
  obtain ⟨sys, hsys, rfl⟩ := Option.map_eq_some_iff.mp hs
  simp only [PoolSystem.step] at hsys
  split at hsys
  · rename_i hidle
    cases hsys
    obtain ⟨before, after, htaken, haccepted⟩ := h.fifo
    rw [h.idle hidle, List.append_nil, ← htaken] at haccepted
    refine ⟨⟨s.taken, [], (List.append_nil _).symm, ?_⟩, (by simp), h.called, h.fresh, h.assigned,
      h.inTask, fun t ht => ?_, (by simp)⟩
    · dsimp only [TaskQueue.clear]
      rw [haccepted, List.append_nil]
      exact (List.append_nil _).symm
    · dsimp only at ht ⊢
      rw [haccepted] at ht
      exact List.mem_append.mp ht
  · cases hsys

theorem Inv.shut (h : s.Inv) (hs : s.step .shut = some s') : s'.Inv := by
  obtain ⟨sys, hsys, rfl⟩ := Option.map_eq_some_iff.mp hs
  change s.sys.shutStep = some sys at hsys
  unfold PoolSystem.shutStep at hsys
  split at hsys
  · cases hsys
  · cases hsys
    exact h.keep (by simp) (by simp)
  · split at hsys
    · cases hsys
      exact h
    · cases hsys
      exact h.keep (by simp) (by simp)
  · cases hsys
    exact h.keep (by simp) (by simp)
  · cases hsys
    exact h.keep (by simp) (by simp)
  · split at hsys
    · rename_i hexited
      cases hsys
      exact h.keep (by simp) fun _ => hexited
    · cases hsys
  · cases hsys

theorem Inv.step (h : s.Inv) {a : Action υ τ} (hs : s.step a = some s') : s'.Inv := by
  cases a with
  | append task => exact h.append hs
  | push task => exact h.push hs
  | notify task =>
    obtain ⟨sys, hsys, rfl⟩ := Option.map_eq_some_iff.mp hs
    simp only [PoolSystem.step] at hsys
    split at hsys
    · cases hsys
      exact ⟨h.fifo, h.idle, h.called, h.fresh, h.assigned, h.inTask, h.earlier, h.returned⟩
    · cases hsys
  | work u => exact h.work hs
  | quit => exact h.quit hs
  | waitForJobFinish =>
    obtain ⟨sys, hsys, rfl⟩ := Option.map_eq_some_iff.mp hs
    simp only [PoolSystem.step] at hsys
    split at hsys
    · cases hsys
      exact h.keep (by simp) (by simp)
    · cases hsys
  | shut => exact h.shut hs

/-- In every run, each accepted task is executed once, or discarded, or still on
its way, and behind `quit` none is on its way to a worker. -/
theorem settled_of_reachable (h : Reachable step new s) : s.Settled :=
  (h.invariant inv_new fun _ _ _ h _ hs => h.step hs).settled

/-- The worker is in the first task when `quit` discards the second, and a third
one arrives behind `clear`. -/
theorem settled_of_reachable_three_tasks :
    ∃ s : QuitSystem (Fin 1) Nat, (s.sys.shutdown = .returned ∧ s.done = [1] ∧
      s.discarded = [2] ∧ s.sys.pool.tasks = [some 3]) ∧ s.Settled := by
  obtain ⟨s, hs, hP⟩ : ∃ s : QuitSystem (Fin 1) Nat, Reachable step new s ∧
      (s.sys.shutdown = .returned ∧ s.done = [1] ∧ s.discarded = [2] ∧
        s.sys.pool.tasks = [some 3]) :=
    exists_reachable_of_run
      [.append (some 1), .push (some 1), .work 0, .work 0, .work 0, .append (some 2),
        .push (some 2), .append (some 3), .quit, .work 0, .work 0, .work 0, .shut, .push (some 3),
        .work 0, .work 0, .work 0, .shut, .shut, .shut, .shut]
      (by decide +kernel)
  exact ⟨s, hP, settled_of_reachable hs⟩

end QuitSystem

end CppRpc
