import CppRpc.Lib.Progress
import CppRpc.Util.PoolDrain
import CppRpc.Util.PoolWaiting

/-!
# A stranded task is late, not lost

The wake-ups of a pool collapse in `m_ready`, and so a task may wait in the queue
while workers sleep beside it.  Whoever takes a task looks at the queue again
before he sleeps.  So, before the shutdown, the queue is empty, or a call of
`append_task` is still to notify, or `m_ready` is set, or a worker is `awake`.

`ThreadPool.Watched` is this invariant, for a pool with any callers, and `effort`
bounds what is left to do when nobody appends any more.  `finishes_of_reachable`
is the result: from every state of a run, however the steps interleave, the
threads come to rest after at most `effort` steps, and where they rest, every
task of every call is done.
-/

namespace CppRpc

open Runs

namespace Worker

variable {τ : Type}

/-- Whether a worker will look at the queue before it can sleep. -/
def awake : Worker τ → Bool
  | .starting | .taking | .resuming | .holding _ | .executing _ | .finishing => true
  | _ => false

/-- The steps of a worker up to its sleep, when it finds nothing in the queue. -/
def effort : Worker τ → Nat
  | .starting | .resuming | .finishing => 5
  | .taking => 4
  | .testing => 3
  | .pausing => 2
  | .entering => 1
  | .holding _ => 7
  | .executing _ => 6
  | .testingAgain | .blocked | .quitting | .exited => 0

/-- The worker does not hold an empty task. -/
def nonempty : Worker τ → Bool
  | .holding none | .executing none => false
  | _ => true

variable {p p' : ThreadPool τ} {w w' : Worker τ}

theorem Move.nonempty (h : Move p w w' p') (hw : w.leaving = true → w = .testing)
    (hn : w.nonempty = true) : w'.nonempty = true := by
  cases h with
  | reset => exact absurd (hw rfl) (by simp)
  | enter task =>
    cases task with
    | none => cases hn
    | some t => rfl
  | _ => rfl

/-- What one step takes off the effort: the worker's, the queue's and that of
the wake-up. -/
theorem Move.effort_lt (h : Move p w w' p') (hexit : p.exit = false)
    (hw : w.leaving = true → w = .testing) :
    w'.effort + 4 * p'.tasks.length + 6 * p'.condition.pending <
      w.effort + 4 * p.tasks.length + 6 * p.condition.pending := by
  cases h with
  | takeNothing | take =>
    cases htasks : p.tasks with
    | nil => simp_all [effort, TaskQueue.takeTask]
    | cons task rest =>
      simp only [effort, TaskQueue.takeTask, List.length_cons]
      omega
  | testExit hset | leave hset => simp [hexit] at hset
  | reset | exit => exact absurd (hw rfl) (by simp)
  | pass c hset hclear | wake c hset hclear =>
    simp only [effort, hset, hclear]
    omega
  | _ =>
    simp only [effort]
    omega

/-- A worker falls asleep only when it has found the queue empty. -/
theorem Move.tasks_eq_nil_or_awake (h : Move p w w' p') (hsome : ∀ task ∈ p.tasks, task.isSome)
    (hw : w.awake = true) : p'.tasks = [] ∨ w'.awake = true := by
  cases h with
  | takeNothing htask =>
    left
    rw [TaskQueue.eq_nil_of_takeTask hsome htask]
    rfl
  | test | testExit | leave | reset | pause | block | exit => cases hw
  | _ => exact Or.inr rfl

/-- Whoever leaves with the wake-up is awake. -/
theorem Move.ready_or_awake (h : Move p w w' p') :
    p'.condition = p.condition ∨ w'.awake = true := by
  cases h with
  | pass | wake => exact Or.inr rfl
  | _ => exact Or.inl rfl

/-- A worker that has not left stands still only while it sleeps. -/
theorem eq_blocked_of_step (h : step p w = none) (hleaving : w.leaving = true → w = .testing)
    (hn : w.nonempty = true) : w = .blocked ∧ p.condition.ready ≠ 1 := by
  cases w with
  | blocked =>
    refine ⟨rfl, fun hready => ?_⟩
    simp [step, Condition.wait?, hready] at h
  | entering =>
    rw [step] at h
    split at h <;> cases h
  | executing task =>
    cases task with
    | none => cases hn
    | some t => cases h
  | exited => exact absurd (hleaving rfl) (by simp)
  | _ => cases h

end Worker

/-! ## A pool before its shutdown -/

namespace ThreadPool

variable {υ τ : Type} [Fintype υ]

/-- What is in the queue will be looked at.  `owed` says that a call of
`append_task` is before its `notify_all`. -/
structure Watched (p : ThreadPool τ) (worker : υ → Worker τ) (owed : Prop) : Prop where
  opened : p.exit = false
  nonempty : ∀ task ∈ p.tasks, task.isSome
  leaving : ∀ u, (worker u).leaving = true → worker u = .testing
  holding : ∀ u, (worker u).nonempty = true
  watched : p.tasks = [] ∨ owed ∨ p.condition.ready = 1 ∨ ∃ u, (worker u).awake = true

/-- What is left to do for the tasks and the wake-up. -/
def effort (p : ThreadPool τ) (worker : υ → Worker τ) : Nat :=
  4 * p.tasks.length + 6 * p.condition.pending + total Worker.effort worker

variable {p p' : ThreadPool τ} {worker : υ → Worker τ} {owed owed' : Prop}

omit [Fintype υ] in
theorem watched_new (owed : Prop) : (new : ThreadPool τ).Watched (fun _ : υ => .starting) owed :=
  ⟨rfl, nofun, nofun, fun _ => rfl, Or.inl rfl⟩

omit [Fintype υ] in
/-- A task arrives. -/
theorem Watched.push (h : p.Watched worker owed) (t : τ) (howed : owed') :
    ({ p with tasks := p.tasks.appendTask (some t) } : ThreadPool τ).Watched worker owed' := by
  refine ⟨h.opened, fun task ht => ?_, h.leaving, h.holding, Or.inr (Or.inl howed)⟩
  rcases List.mem_append.mp ht with ht | ht
  · exact h.nonempty task ht
  · rw [List.mem_singleton.mp ht]
    rfl

omit [Fintype υ] in
theorem Watched.notify (h : p.Watched worker owed) (owed' : Prop) :
    ({ p with condition := p.condition.notify 1 } : ThreadPool τ).Watched worker owed' :=
  ⟨h.opened, h.nonempty, h.leaving, h.holding, Or.inr (Or.inr (Or.inl rfl))⟩

omit [Fintype υ] in
theorem Watched.mono (h : p.Watched worker owed) (himp : owed → owed') : p.Watched worker owed' :=
  ⟨h.opened, h.nonempty, h.leaving, h.holding, h.watched.imp_right (Or.imp_left himp)⟩

section Work

variable [DecidableEq υ] {u : υ} {w : Worker τ}

omit [Fintype υ] in
/-- A worker goes on. -/
theorem Watched.work (h : p.Watched worker owed) (hs : (worker u).step p = some (w, p')) :
    p'.Watched (Function.update worker u w) owed := by
  have hmove := Worker.move_of_step hs
  refine ⟨hmove.exit_eq.trans h.opened, fun task ht => h.nonempty task (hmove.tasks_subset ht),
    ?_, ?_, ?_⟩
  · rw [Function.forall_update_iff worker fun _ w => w.leaving = true → w = .testing]
    exact ⟨hmove.eq_testing h.opened (h.leaving u), fun v _ => h.leaving v⟩
  · rw [Function.forall_update_iff worker fun _ w => w.nonempty = true]
    exact ⟨hmove.nonempty (h.leaving u) (h.holding u), fun v _ => h.holding v⟩
  · rcases h.watched with hnil | howed | hready | ⟨v, hv⟩
    · left
      rw [List.eq_nil_iff_forall_not_mem]
      intro task ht
      have hmem := hmove.tasks_subset ht
      rw [hnil] at hmem
      cases hmem
    · exact Or.inr (Or.inl howed)
    · rcases hmove.ready_or_awake with hkeep | hw
      · exact Or.inr (Or.inr (Or.inl (by rw [hkeep, hready])))
      · exact Or.inr (Or.inr (Or.inr ⟨u, by rw [Function.update_self, hw]⟩))
    · by_cases hvu : v = u
      · subst hvu
        rcases hmove.tasks_eq_nil_or_awake h.nonempty hv with hnil | hw
        · exact Or.inl hnil
        · exact Or.inr (Or.inr (Or.inr ⟨v, by rw [Function.update_self, hw]⟩))
      · exact Or.inr (Or.inr (Or.inr ⟨v, by rw [Function.update_of_ne hvu, hv]⟩))

theorem Watched.effort_lt (h : p.Watched worker owed) (hs : (worker u).step p = some (w, p')) :
    p'.effort (Function.update worker u w) < p.effort worker := by
  have htotal := total_update Worker.effort worker u w
  have hlt := (Worker.move_of_step hs).effort_lt h.opened (h.leaving u)
  unfold effort
  omega

end Work

omit [Fintype υ] in
/-- Where no worker can go on and nobody is to notify, nothing is left to do. -/
theorem Watched.asleep [Nonempty υ] (h : p.Watched worker owed) (howed : ¬ owed)
    (hrest : ∀ u, (worker u).step p = none) : p.tasks = [] ∧ ∀ u, worker u = .blocked := by
  have hsleep : ∀ u, worker u = .blocked ∧ p.condition.ready ≠ 1 := fun u =>
    Worker.eq_blocked_of_step (hrest u) (h.leaving u) (h.holding u)
  refine ⟨?_, fun u => (hsleep u).1⟩
  rcases h.watched with hnil | howed' | hready | ⟨u, hu⟩
  · exact hnil
  · exact absurd howed' howed
  · obtain ⟨u⟩ := ‹Nonempty υ›
    exact absurd hready (hsleep u).2
  · rw [(hsleep u).1] at hu
    cases hu

end ThreadPool

/-! ## With its callers -/

namespace DrainSystem

open PoolSystem (Action)

variable {υ τ : Type} [Fintype υ]

/-- The steps before the shutdown. -/
def Open (_ : DrainSystem υ τ) : Action υ τ → Prop
  | .append _ | .push _ | .notify _ | .work _ => True
  | .quit | .waitForJobFinish | .shut => False

/-- The steps that go on with what has been called. -/
def Working (_ : DrainSystem υ τ) : Action υ τ → Prop
  | .push _ | .notify _ | .work _ => True
  | .append _ | .quit | .waitForJobFinish | .shut => False

instance (s : DrainSystem υ τ) : DecidablePred s.Open
  | .append _ | .push _ | .notify _ | .work _ => isTrue trivial
  | .quit | .waitForJobFinish | .shut => isFalse id

instance (s : DrainSystem υ τ) : DecidablePred s.Working
  | .push _ | .notify _ | .work _ => isTrue trivial
  | .append _ | .quit | .waitForJobFinish | .shut => isFalse id

/-- What is left to do for the calls so far. -/
def effort (s : DrainSystem υ τ) : Nat :=
  12 * s.sys.checked.length + 7 * s.sys.pushed.length + s.sys.pool.effort s.sys.worker

/-- Every task of every call is done, and the workers sleep. -/
structure AllDone (s : DrainSystem υ τ) : Prop where
  done : (s.called : Multiset τ) = s.done
  tasks : s.sys.pool.tasks = []
  asleep : ∀ u, s.sys.worker u = .blocked

/-- The invariant before the shutdown. -/
structure Lively (s : DrainSystem υ τ) : Prop where
  inv : s.Inv
  idle : s.sys.shutdown = .idle
  called : (s.called : Multiset τ) = s.sys.checked.reduceOption + s.accepted
  waiting : ∀ task ∈ s.sys.checked ++ s.sys.pushed, task.isSome
  watched : s.sys.pool.Watched s.sys.worker (s.sys.pushed ≠ [])

variable {s s' : DrainSystem υ τ}

theorem lively_new : (new : DrainSystem υ τ).Lively where
  inv := inv_new
  idle := rfl
  called := by simp [new, PoolSystem.new]
  waiting := by simp [new, PoolSystem.new]
  watched := ThreadPool.watched_new _

variable [DecidableEq υ] [DecidableEq τ]

theorem Lively.append (h : s.Lively) {t : τ} (hs : s.step (.append (some t)) = some s') :
    s'.Lively := by
  have hinv := h.inv.append hs
  simp only [step] at hs
  split at hs
  · cases hs
  · cases hs
    simp only [h.watched.opened, Bool.false_eq_true, if_false] at hinv ⊢
    refine ⟨hinv, h.idle, ?_, fun task ht => ?_, h.watched⟩
    · dsimp only
      rw [List.reduceOption_cons_of_some, ← Multiset.cons_coe, ← Multiset.cons_coe,
        Multiset.cons_add, h.called]
    · rcases List.mem_cons.mp ht with rfl | ht
      · rfl
      · exact h.waiting task ht

theorem Lively.push (h : s.Lively) {t : τ} (hs : s.step (.push (some t)) = some s') :
    s'.Lively ∧ s'.effort < s.effort := by
  have hinv := h.inv.push hs
  obtain ⟨sys, hsys, rfl⟩ := Option.map_eq_some_iff.mp hs
  simp only [PoolSystem.step] at hsys
  split at hsys
  · rename_i hmem
    cases hsys
    refine ⟨⟨hinv, h.idle, ?_, fun task ht => ?_, h.watched.push t (List.cons_ne_nil _ _)⟩, ?_⟩
    · have hperm := (List.perm_cons_erase hmem).filterMap id
      have hchecked : (s.sys.checked.reduceOption : Multiset τ) =
          t ::ₘ (s.sys.checked.erase (some t)).reduceOption := Multiset.coe_eq_coe.mpr hperm
      dsimp only
      rw [h.called, hchecked, ← Multiset.coe_add, Multiset.coe_singleton, Multiset.cons_add,
        ← Multiset.singleton_add, add_comm, add_assoc]
    · simp only [List.mem_append, List.mem_cons] at ht
      rcases ht with ht | rfl | ht
      · exact h.waiting task (List.mem_append_left _ (List.mem_of_mem_erase ht))
      · rfl
      · exact h.waiting task (List.mem_append_right _ ht)
    · have hlen := List.length_erase_of_mem hmem
      have hpos := List.length_pos_of_mem hmem
      simp only [effort, ThreadPool.effort, TaskQueue.appendTask, List.length_append,
        List.length_cons, List.length_nil, hlen]
      omega
  · cases hsys

theorem Lively.notify (h : s.Lively) {t : τ} (hs : s.step (.notify (some t)) = some s') :
    s'.Lively ∧ s'.effort < s.effort := by
  have hinv := h.inv.notify hs
  obtain ⟨sys, hsys, rfl⟩ := Option.map_eq_some_iff.mp hs
  simp only [PoolSystem.step] at hsys
  split at hsys
  · rename_i hmem
    cases hsys
    refine ⟨⟨hinv, h.idle, h.called, fun task ht => ?_, h.watched.notify _⟩, ?_⟩
    · apply h.waiting
      rcases List.mem_append.mp ht with ht | ht
      · exact List.mem_append_left _ ht
      · exact List.mem_append_right _ (List.mem_of_mem_erase ht)
    · have hlen := List.length_erase_of_mem hmem
      have hpos := List.length_pos_of_mem hmem
      simp only [effort, ThreadPool.effort, Condition.pending_notify, hlen]
      omega
  · cases hsys

theorem Lively.work (h : s.Lively) {u : υ} (hs : s.step (.work u) = some s') :
    s'.Lively ∧ s'.effort < s.effort := by
  have hinv := h.inv.work hs
  obtain ⟨sys, hsys, rfl⟩ := Option.map_eq_some_iff.mp hs
  obtain ⟨⟨w, p⟩, hr, rfl⟩ := Option.map_eq_some_iff.mp hsys
  refine ⟨⟨hinv, h.idle, h.called, h.waiting, h.watched.work hr⟩, ?_⟩
  have hlt := h.watched.effort_lt hr
  simp only [effort]
  omega

theorem Lively.step (h : s.Lively) {a : Action υ τ} (hok : s.Open a) (hs : s.step a = some s') :
    s'.Lively := by
  cases a with
  | append task =>
    cases task with
    | none => cases hs
    | some t => exact h.append hs
  | push task =>
    cases task with
    | none => cases hs
    | some t => exact (h.push hs).1
  | notify task =>
    cases task with
    | none => cases hs
    | some t => exact (h.notify hs).1
  | work u => exact (h.work hs).1
  | quit | waitForJobFinish | shut => exact absurd hok id

theorem Lively.working (h : s.Lively) {a : Action υ τ} (hok : s.Working a)
    (hs : s.step a = some s') : s'.Lively ∧ s'.effort < s.effort := by
  cases a with
  | push task =>
    cases task with
    | none => cases hs
    | some t => exact h.push hs
  | notify task =>
    cases task with
    | none => cases hs
    | some t => exact h.notify hs
  | work u => exact h.work hs
  | append | quit | waitForJobFinish | shut => exact absurd hok id

/-- The calls of `append_task` can go on until they are over. -/
theorem Lively.calls_eq_nil (h : s.Lively) (hpush : ∀ t, s.step (.push (some t)) = none)
    (hnotify : ∀ t, s.step (.notify (some t)) = none) :
    s.sys.checked = [] ∧ s.sys.pushed = [] := by
  constructor
  · rw [List.eq_nil_iff_forall_not_mem]
    intro task ht
    have hsome := h.waiting task (List.mem_append_left _ ht)
    obtain ⟨t, rfl⟩ := Option.isSome_iff_exists.mp hsome
    have hstep := hpush t
    simp [DrainSystem.step, PoolSystem.step, ht] at hstep
  · rw [List.eq_nil_iff_forall_not_mem]
    intro task ht
    have hsome := h.waiting task (List.mem_append_right _ ht)
    obtain ⟨t, rfl⟩ := Option.isSome_iff_exists.mp hsome
    have hstep := hnotify t
    simp [DrainSystem.step, PoolSystem.step, ht] at hstep

/-- A thread can go on until every task is done. -/
theorem Lively.allDone [Nonempty υ] (h : s.Lively) (hrest : AtRest DrainSystem.step Working s) :
    s.AllDone := by
  obtain ⟨hchecked, hpushed⟩ := h.calls_eq_nil
    (fun t => hrest (.push (some t)) trivial) fun t => hrest (.notify (some t)) trivial
  obtain ⟨htasks, hblocked⟩ := h.watched.asleep (not_not_intro hpushed) fun u => by
    have hstep := hrest (.work u) trivial
    simpa [DrainSystem.step, PoolSystem.step] using hstep
  refine ⟨?_, htasks, hblocked⟩
  have hassigned : total Worker.assigned s.sys.worker = 0 :=
    total_eq_zero fun u => by rw [hblocked u]; rfl
  have hinTask : total Worker.inTask s.sys.worker = 0 :=
    total_eq_zero fun u => by rw [hblocked u]; rfl
  calc (s.called : Multiset τ) = s.accepted := by
        rw [h.called, hchecked]
        exact zero_add _
    _ = s.taken := by
        rw [h.inv.fifo, htasks]
        exact congrArg _ (List.append_nil _)
    _ = s.began := by rw [h.inv.assigned, hassigned, add_zero]
    _ = s.done := by rw [h.inv.inTask, hinTask, add_zero]

/-- From every state of a run before the shutdown, the threads come to rest when
nobody appends any more, and then every task is done. -/
theorem finishes_of_reachable [Nonempty υ] (h : ReachableIf step Open new s) :
    Settles step Working s.effort AllDone s := by
  have hlively : s.Lively := h.invariant lively_new fun _ _ _ h hok hs => h.step hok hs
  exact settles_of_rank Lively effort (fun _ _ _ h hok hs => h.working hok hs)
    (fun _ h hrest => h.allDone hrest) hlively

/-- The second task is left beside a worker that sleeps. -/
theorem finishes_of_reachable_stranded :
    ∃ s : DrainSystem (Fin 2) Nat, (¬ s.sys.NotStranded ∧ s.called = [1, 0] ∧ s.done = []) ∧
      Settles step Working s.effort AllDone s := by
  obtain ⟨s, hs, hP⟩ : ∃ s : DrainSystem (Fin 2) Nat, ReachableIf step Open new s ∧
      (¬ s.sys.NotStranded ∧ s.called = [1, 0] ∧ s.done = []) :=
    exists_reachable_of_run
      [.work 0, .work 0, .work 0, .work 0, .work 0, .work 1, .work 1, .work 1, .work 1, .work 1,
        .append (some 0), .push (some 0), .notify (some 0), .append (some 1), .push (some 1),
        .notify (some 1), .work 0, .work 0, .work 0, .work 0]
      (by decide +kernel)
  exact ⟨s, hP, finishes_of_reachable hs⟩

end DrainSystem

end CppRpc
