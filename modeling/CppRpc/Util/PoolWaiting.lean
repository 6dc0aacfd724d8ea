import CppRpc.Util.ThreadPool

/-!
# Queued tasks and sleeping workers

The workers of a pool before its shutdown, and any number of threads in
`append_task`.  A worker looks for a task when it will call `take_task` before
it can block, and it is in the wait path from an empty `take_task` to its return
from `wait`.

`NotStranded` is the property: with no `append_task` under way, a task in the
queue is matched by a pending wake-up, by a worker that looks for a task, or by
the absence of blocked workers.  `m_ready` stands for one wake-up only, so a
`notify_all` that finds it set adds nothing.  `Covered` excludes those that
matter, `notStranded_of_covered` is the result, and
`second_task_is_stranded` a run that appends two tasks in a row.
-/

namespace CppRpc

open Runs

/-- Whether a worker will call `take_task` before it can block. -/
def Worker.looking {τ : Type} : Worker τ → Nat
  | .starting | .taking | .resuming | .finishing => 1
  | _ => 0

/-- Whether a worker is between an empty `take_task` and its return from
`wait`. -/
def Worker.inWait {τ : Type} : Worker τ → Nat
  | .testing | .pausing | .entering | .blocked => 1
  | _ => 0

namespace PoolSystem

variable {υ τ : Type} [Fintype υ]

/-- The property. -/
def NotStranded (s : PoolSystem υ τ) : Prop :=
  s.checked = [] → s.pushed = [] → s.pool.tasks ≠ [] →
    s.pool.condition.ready = 1 ∨ (∃ u, (s.worker u).looking = 1) ∨ ∀ u, s.worker u ≠ .blocked

instance [DecidableEq τ] (s : PoolSystem υ τ) : Decidable s.NotStranded :=
  inferInstanceAs (Decidable (s.checked = [] → _))

/-- The condition on the state before a step.  The runs end with the shutdown,
no task is empty, and a `notify_all` may find `m_ready` set only with at most
one worker in the wait path, or with a worker that looks for a task, or an
`append_task` that is to notify, for every queued task. -/
def Covered (s : PoolSystem υ τ) : Action υ τ → Prop
  | .append task => task.isSome
  | .notify _ => s.pool.condition.ready = 1 →
      total Worker.inWait s.worker ≤ 1 ∨
        s.pool.tasks.length ≤ total Worker.looking s.worker + s.pushed.length
  | .quit | .waitForJobFinish | .shut => False
  | .push _ | .work _ => True

instance (s : PoolSystem υ τ) : DecidablePred s.Covered
  | .append _ => inferInstanceAs (Decidable (_ = true))
  | .notify _ => inferInstanceAs (Decidable (_ → _))
  | .quit | .waitForJobFinish | .shut => isFalse id
  | .push _ | .work _ => isTrue trivial

/-- The invariant: every worker in the wait path has a wake-up, or every queued
task has a wake-up, a worker or an `append_task`. -/
structure WaitInv (s : PoolSystem υ τ) : Prop where
  running : s.pool.exit = false
  nonempty : ∀ task ∈ s.pool.tasks ++ s.checked, task.isSome
  covered : total Worker.inWait s.worker ≤ s.pool.condition.pending ∨
    s.pool.tasks.length ≤
      s.pool.condition.pending + total Worker.looking s.worker + s.pushed.length

variable {s : PoolSystem υ τ}

theorem waitInv_new : (new : PoolSystem υ τ).WaitInv :=
  ⟨rfl, by simp [new, ThreadPool.new], Or.inr (Nat.zero_le _)⟩

/-- A worker moves, in a way that the counts allow. -/
theorem WaitInv.move [DecidableEq υ] (h : s.WaitInv) (u : υ) {w : Worker τ} {p : ThreadPool τ}
    (hexit : p.exit = s.pool.exit) (htasks : ∀ task ∈ p.tasks, task ∈ s.pool.tasks)
    (hcount : p.tasks = [] ∨
      w.inWait + s.pool.condition.pending ≤ (s.worker u).inWait + p.condition.pending ∧
        p.tasks.length + s.pool.condition.pending + (s.worker u).looking ≤
          s.pool.tasks.length + p.condition.pending + w.looking) :
    ({ s with pool := p, worker := Function.update s.worker u w } : PoolSystem υ τ).WaitInv := by
  have hwait := total_update Worker.inWait s.worker u w
  have hlook := total_update Worker.looking s.worker u w
  refine ⟨hexit.trans h.running, fun task ht => ?_, ?_⟩
  · apply h.nonempty
    rcases List.mem_append.mp ht with ht | ht
    · exact List.mem_append_left _ (htasks task ht)
    · exact List.mem_append_right _ ht
  · rcases hcount with hnil | ⟨hin, hout⟩
    · right
      simp [hnil]
    · have := h.covered
      dsimp only
      omega

theorem WaitInv.notStranded (h : s.WaitInv) : s.NotStranded := by
  intro _ hpushed htasks
  by_cases hready : s.pool.condition.ready = 1
  · exact Or.inl hready
  · right
    have hlen := List.length_pos_iff.mpr htasks
    have hcovered := h.covered
    rw [Condition.pending, if_neg hready, hpushed] at hcovered
    rcases hcovered with hwait | hlook
    · right
      intro u hu
      have := le_total Worker.inWait s.worker u
      rw [hu, Worker.inWait] at this
      omega
    · left
      obtain ⟨u, hu⟩ := exists_of_total_pos
        (show 0 < total Worker.looking s.worker by rw [List.length_nil] at hlook; omega)
      refine ⟨u, ?_⟩
      cases hw : s.worker u <;> simp_all [Worker.looking]

variable [DecidableEq υ] [DecidableEq τ]

theorem WaitInv.work (h : s.WaitInv) {u : υ} {s' : PoolSystem υ τ}
    (hs : s.step (.work u) = some s') : s'.WaitInv := by
  obtain ⟨⟨w, p⟩, hr, rfl⟩ := Option.map_eq_some_iff.mp hs
  have hmove := Worker.move_of_step hr
  have hexit := h.running
  generalize hw : s.worker u = v at hmove
  cases hmove with
  | takeNothing htask =>
    have hnil : s.pool.tasks = [] :=
      TaskQueue.eq_nil_of_takeTask (fun t ht => h.nonempty t (List.mem_append_left _ ht)) htask
    exact h.move u rfl (by simp [hnil, TaskQueue.takeTask]) (Or.inl (by rw [hnil]; rfl))
  | take t htask =>
    cases htasks : s.pool.tasks with
    | nil => simp [htasks, TaskQueue.takeTask] at htask
    | cons task rest =>
      refine h.move u rfl (fun t ht => ?_) (Or.inr ?_)
      · rw [htasks]
        exact List.mem_cons_of_mem task ht
      · simp only [hw, htasks, TaskQueue.takeTask, List.length_cons, Worker.inWait, Worker.looking]
        omega
  | testExit hset => simp [hexit] at hset
  | pass c hset hclear | wake c hset hclear =>
    refine h.move u rfl (fun t ht => ht) (Or.inr ?_)
    simp [hw, Worker.inWait, Worker.looking, hset, hclear]
  | _ => exact h.move u rfl (fun t ht => ht) (Or.inr (by simp [hw, Worker.inWait, Worker.looking]))

theorem WaitInv.step (h : s.WaitInv) {a : Action υ τ} (hok : s.Covered a) {s' : PoolSystem υ τ}
    (hs : s.step a = some s') : s'.WaitInv := by
  cases a with
  | append task =>
    cases hs
    rw [h.running, if_neg Bool.false_ne_true]
    refine ⟨h.running, fun t ht => ?_, h.covered⟩
    rcases List.mem_append.mp ht with ht | ht
    · exact h.nonempty t (List.mem_append_left _ ht)
    · rcases List.mem_cons.mp ht with rfl | ht
      · exact hok
      · exact h.nonempty t (List.mem_append_right _ ht)
  | push task =>
    simp only [PoolSystem.step] at hs
    split at hs
    · rename_i hmem
      cases hs
      refine ⟨h.running, fun t ht => ?_, ?_⟩
      · apply h.nonempty
        simp only [TaskQueue.appendTask, List.mem_append, List.mem_singleton] at ht ⊢
        rcases ht with (ht | rfl) | ht
        · exact Or.inl ht
        · exact Or.inr hmem
        · exact Or.inr (List.mem_of_mem_erase ht)
      · have := h.covered
        simp only [TaskQueue.appendTask, List.length_append, List.length_cons, List.length_nil]
        omega
    · cases hs
  | notify task =>
    simp only [PoolSystem.step] at hs
    split at hs
    · rename_i hmem
      cases hs
      refine ⟨h.running, h.nonempty, ?_⟩
      have hlen := List.length_erase_of_mem hmem
      have hpos := List.length_pos_of_mem hmem
      have hcovered := h.covered
      simp only [Condition.pending_notify, hlen]
      by_cases hready : s.pool.condition.ready = 1
      · have := hok hready
        omega
      · rw [Condition.pending, if_neg hready] at hcovered
        omega
    · cases hs
  | work u => exact h.work hs
  | quit | waitForJobFinish | shut => exact absurd hok id

/-- In every run before the shutdown whose notifications are covered, no queued
task is left to workers that all sleep. -/
theorem notStranded_of_covered (h : ReachableIf step Covered new s) : s.NotStranded :=
  (h.invariant waitInv_new fun _ _ _ h hok hs => h.step hok hs).notStranded

/-- Two workers sleep, and two tasks arrive, the second after the first has
woken a worker. -/
theorem notStranded_of_covered_two_tasks :
    ∃ s : PoolSystem (Fin 2) Nat, s.pool.tasks = [some 1] ∧ s.NotStranded := by
  obtain ⟨s, hs, hP⟩ : ∃ s : PoolSystem (Fin 2) Nat,
      ReachableIf step Covered new s ∧ s.pool.tasks = [some 1] :=
    exists_reachable_of_run
      [.work 0, .work 0, .work 0, .work 0, .work 0, .work 1, .work 1, .work 1, .work 1, .work 1,
        .append (some 0), .push (some 0), .notify (some 0), .work 0, .work 0, .work 0,
        .append (some 1), .push (some 1), .notify (some 1)]
      (by decide +kernel)
  exact ⟨s, hP, notStranded_of_covered hs⟩

/-- Two workers sleep, and two tasks arrive before one of them wakes. -/
theorem second_task_is_stranded :
    ∃ s : PoolSystem (Fin 2) Nat, Reachable step new s ∧ s.shutdown = .idle ∧ ¬ s.NotStranded :=
  exists_reachable_of_run
    [.work 0, .work 0, .work 0, .work 0, .work 0, .work 1, .work 1, .work 1, .work 1, .work 1,
      .append (some 0), .push (some 0), .notify (some 0), .append (some 1), .push (some 1),
      .notify (some 1), .work 0, .work 0, .work 0, .work 0]
    (by decide +kernel)

end PoolSystem

end CppRpc
