import CppRpc.Util.ThreadPool

/-!
# What `running_workers` counts

`m_running` is the number of workers between the `++m_running` of their start,
or of their return from `wait`, and the `--m_running` in front of `wait`, or of
their exit; a worker in a task counts a second time.  `countExact_of_reachable`
says so of every reachable state, and `runningWorkers_of_reachable` what follows.

`Meaningful` is the property: `running_workers` answers at most the number of
workers, and zero only if no worker holds or executes a task.  The second half
always holds.  The first one does not, because of the workers that count twice.
`Uncrowded` is the condition on the increments, `meaningful_iff` the result, and
`lone_worker_counts_twice` a pool of one worker.
-/

namespace CppRpc

open Runs

namespace Worker

variable {τ : Type}

/-- Whether a worker is behind a first `++m_running`. -/
def counted : Worker τ → Nat
  | .starting | .entering | .blocked | .resuming | .exited => 0
  | _ => 1

/-- Whether a worker has not started, is at `wait`, or has exited. -/
def uncounted : Worker τ → Nat
  | .starting | .entering | .blocked | .resuming | .exited => 1
  | _ => 0

/-- Whether a worker is behind the `++m_running` of a task. -/
def countedTwice : Worker τ → Nat
  | .executing _ | .finishing => 1
  | _ => 0

theorem countedTwice_le (w : Worker τ) : w.countedTwice ≤ 1 := by
  cases w <;> simp [countedTwice]

/-- The next step of the worker is `++m_running`. -/
def increments : Worker τ → Bool
  | .starting | .resuming | .holding _ => true
  | _ => false

/-- The worker holds or executes a task. -/
def hasTask : Worker τ → Bool
  | .holding _ | .executing _ => true
  | _ => false

theorem counted_of_hasTask {w : Worker τ} (h : w.hasTask = true) : w.counted = 1 := by
  cases w <;> first | rfl | cases h

/-- What a step of a worker does to the counter and to the counts. -/
theorem running_of_move {p p' : ThreadPool τ} {w w' : Worker τ} (h : Move p w w' p') :
    (p'.running + w.counted + w.countedTwice = p.running + w'.counted + w'.countedTwice) ∧
      (w.increments = true → p'.running = p.running + 1) ∧
      (w.increments = false → p'.running ≤ p.running) := by
  cases h <;> simp [counted, countedTwice, increments]

end Worker

namespace PoolSystem

variable {υ τ : Type} [Fintype υ]

/-- `running_workers`. -/
def runningWorkers (s : PoolSystem υ τ) : Int := s.pool.running

/-- The property. -/
structure Meaningful (s : PoolSystem υ τ) : Prop where
  bounded : s.runningWorkers ≤ Fintype.card υ
  idle : s.runningWorkers = 0 → ∀ u, (s.worker u).hasTask = false

/-- The condition on the state before a step: an `++m_running` finds fewer
workers in a task than workers that have not started, are at `wait`, or have
exited. -/
def Uncrowded (s : PoolSystem υ τ) : Action υ τ → Prop
  | .work u => (s.worker u).increments = true →
      total Worker.countedTwice s.worker < total Worker.uncounted s.worker
  | _ => True

/-- What the counter is. -/
def CountExact (s : PoolSystem υ τ) : Prop :=
  s.runningWorkers = total Worker.counted s.worker + total Worker.countedTwice s.worker

variable {s : PoolSystem υ τ}

theorem countExact_new : (new : PoolSystem υ τ).CountExact := by
  have hcounted : total Worker.counted (new : PoolSystem υ τ).worker = 0 :=
    total_eq_zero fun _ => rfl
  have htask : total Worker.countedTwice (new : PoolSystem υ τ).worker = 0 :=
    total_eq_zero fun _ => rfl
  rw [CountExact, hcounted, htask]
  rfl

theorem card_eq_total (worker : υ → Worker τ) :
    Fintype.card υ = total Worker.counted worker + total Worker.uncounted worker := by
  have hone : ∀ w : Worker τ, w.counted + w.uncounted = 1 := by
    intro w
    cases w <;> rfl
  rw [total, total, ← Finset.sum_add_distrib, ← Finset.card_univ, Finset.card_eq_sum_ones]
  exact Finset.sum_congr rfl fun u _ => (hone (worker u)).symm

/-- The second half of the property. -/
theorem CountExact.idle (h : s.CountExact) (hzero : s.runningWorkers = 0) (u : υ) :
    (s.worker u).hasTask = false := by
  by_contra htask
  have hcounted := Worker.counted_of_hasTask (Bool.eq_true_of_not_eq_false htask)
  have hle := le_total Worker.counted s.worker u
  rw [CountExact] at h
  omega

theorem new_meaningful : (new : PoolSystem υ τ).Meaningful :=
  ⟨Int.natCast_nonneg _, fun hzero => countExact_new.idle hzero⟩

variable [DecidableEq υ] [DecidableEq τ] {a : Action υ τ} {s' : PoolSystem υ τ}

/-- Only a worker changes the counter, or its own place. -/
theorem eq_of_step (hs : s.step a = some s') (ha : ∀ u, a ≠ .work u) :
    s'.runningWorkers = s.runningWorkers ∧ s'.worker = s.worker := by
  cases a with
  | work u => exact absurd rfl (ha u)
  | append task =>
    cases hs
    split <;> exact ⟨rfl, rfl⟩
  | shut =>
    simp only [step, shutStep] at hs
    cases hshut : s.shutdown with
    | storing =>
      rw [hshut] at hs
      cases hs
      exact ⟨rfl, rfl⟩
    | notifying left =>
      rw [hshut] at hs
      cases left <;> cases hs <;> exact ⟨rfl, rfl⟩
    | polling | joining =>
      simp only [hshut] at hs
      split at hs <;> cases hs <;> exact ⟨rfl, rfl⟩
    | idle | returned =>
      rw [hshut] at hs
      cases hs
  | push task | notify task | quit | waitForJobFinish =>
    simp only [step] at hs
    split at hs <;> cases hs
    exact ⟨rfl, rfl⟩

theorem CountExact.step (h : s.CountExact) (hs : s.step a = some s') : s'.CountExact := by
  cases a with
  | work u =>
    obtain ⟨⟨w, p⟩, hr, rfl⟩ := Option.map_eq_some_iff.mp hs
    obtain ⟨hrunning, -⟩ := Worker.running_of_move (Worker.move_of_step hr)
    have hcounted := total_update Worker.counted s.worker u w
    have htask := total_update Worker.countedTwice s.worker u w
    unfold CountExact runningWorkers at h ⊢
    dsimp only
    omega
  | _ =>
    obtain ⟨hrunning, hworker⟩ := eq_of_step hs nofun
    rw [CountExact, hrunning, hworker]
    exact h

theorem countExact_of_reachable (h : Reachable step new s) : s.CountExact :=
  h.invariant countExact_new fun _ _ _ h _ hs => h.step hs

/-- What holds in every run. -/
theorem runningWorkers_of_reachable (h : Reachable step new s) :
    s.runningWorkers ≤ 2 * Fintype.card υ ∧
      (s.runningWorkers = 0 → ∀ u, (s.worker u).hasTask = false) := by
  have hcount := countExact_of_reachable h
  refine ⟨?_, hcount.idle⟩
  have hcard := card_eq_total s.worker
  have htask := total_le_card Worker.countedTwice_le s.worker
  rw [CountExact] at hcount
  omega

/-- A step, with what `running_workers` answers after it. -/
def observed (s : PoolSystem υ τ) (a : Action υ τ) : Option (Int × PoolSystem υ τ) :=
  (s.step a).map fun s' => (s'.runningWorkers, s')

/-- Where the property holds, a step keeps it exactly if it meets the
condition. -/
theorem CountExact.meaningful_step_iff (h : s.CountExact) (hs : s.Meaningful)
    (hstep : s.step a = some s') : s'.Meaningful ↔ s.Uncrowded a := by
  have h' := h.step hstep
  have hiff : s'.Meaningful ↔ s'.runningWorkers ≤ Fintype.card υ :=
    ⟨Meaningful.bounded, fun hle => ⟨hle, h'.idle⟩⟩
  have hbounded := hs.bounded
  rw [hiff]
  cases a with
  | work u =>
    obtain ⟨⟨w, p⟩, hr, rfl⟩ := Option.map_eq_some_iff.mp hstep
    obtain ⟨-, hup, hkeep⟩ := Worker.running_of_move (Worker.move_of_step hr)
    have hcard := card_eq_total s.worker
    rw [CountExact] at h
    unfold Uncrowded runningWorkers at *
    dsimp only
    cases hinc : (s.worker u).increments with
    | true =>
      have := hup hinc
      simp only [forall_const]
      omega
    | false =>
      have := hkeep hinc
      simp only [Bool.false_eq_true, false_implies, iff_true]
      omega
  | _ =>
    rw [(eq_of_step hstep nofun).1]
    exact iff_of_true hbounded trivial

/-- A worker that is about to count is never blocked. -/
theorem isSome_of_increments {u : υ} (h : (s.worker u).increments = true) :
    (s.step (.work u)).isSome := by
  simp only [step, Option.isSome_map]
  cases hw : s.worker u <;> rw [hw] at h <;> first | rfl | cases h

/-- For every number of workers and every sequence of steps: the property holds
after every step exactly when every step meets the condition. -/
theorem meaningful_iff (actions : List (Action υ τ)) :
    OkAlong observed (fun s a => ∀ r ∈ observed s a, r.2.Meaningful) new actions ↔
      OkAlong observed Uncrowded new actions := by
  apply okAlong_iff (P := fun s => s.CountExact ∧ s.Meaningful) _ _
    ⟨countExact_new, new_meaningful⟩
  · rintro s a ⟨hcount, hs⟩
    cases hstep : s.step a with
    | none =>
      refine iff_of_true (by simp [observed, hstep]) ?_
      cases a with
      | work u =>
        intro hinc
        have henabled := isSome_of_increments hinc
        rw [hstep] at henabled
        cases henabled
      | _ => trivial
    | some s' =>
      rw [← hcount.meaningful_step_iff hs hstep]
      simp [observed, hstep]
  · rintro s a r ⟨hcount, -⟩ hok hr
    obtain ⟨s', hstep, rfl⟩ := Option.map_eq_some_iff.mp hr
    exact ⟨hcount.step hstep, hok _ hr⟩

/-- A pool of one worker, which executes a task. -/
theorem lone_worker_counts_twice :
    ∃ s : PoolSystem (Fin 1) Nat, Reachable step new s ∧ ¬ s.Meaningful := by
  obtain ⟨s, hs, hrunning⟩ :
      ∃ s : PoolSystem (Fin 1) Nat, Reachable step new s ∧ s.runningWorkers = 2 :=
    exists_reachable_of_run
      [.append (some 7), .push (some 7), .work 0, .work 0, .work 0]
      (by decide +kernel)
  refine ⟨s, hs, fun h => ?_⟩
  have hbounded := h.bounded
  rw [hrunning] at hbounded
  cases hbounded

end PoolSystem

end CppRpc
