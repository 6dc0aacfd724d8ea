import CppRpc.Util.ThreadPool

/-!
# The notify loop of a shutdown

`quit` and `wait_for_job_finish` call `notify_all` once for every worker and
then join the workers, while these wake up, appended tasks or not.

`NotDeadlocked` is the property: the loop is not left behind with a worker that
sleeps for good and no other thread to wake it.  Each worker that wakes clears
`m_ready`, so a `notify_all` that finds it set is lost.  `Sufficient` excludes
the loss while the calls that remain are too few for the workers that sleep,
`notDeadlocked_of_sufficient` is the result, and `second_notify_is_lost` a run
with two workers.
-/

namespace CppRpc

open Runs

/-- Whether a worker is in `wait`, or on the way into it. -/
def Worker.sleeping {τ : Type} : Worker τ → Nat
  | .pausing | .entering | .blocked => 1
  | _ => 0

theorem Worker.sleeping_le {τ : Type} (w : Worker τ) : w.sleeping ≤ 1 := by
  cases w <;> simp [sleeping]

/-- The calls of `notify_all` that remain, once the loop has been reached. -/
def Shutdown.left : Shutdown → Option Nat
  | .notifying left => some left
  | .joining | .returned => some 0
  | .idle | .storing | .polling => none

namespace PoolSystem

variable {υ τ : Type} [Fintype υ]

/-- The property. -/
def NotDeadlocked (s : PoolSystem υ τ) : Prop :=
  ¬ (s.shutdown.left = some 0 ∧ s.pool.condition.ready ≠ 1 ∧
    (∃ u, s.worker u = .blocked) ∧ ∀ u, s.worker u = .blocked ∨ s.worker u = .exited)

instance [DecidableEq τ] (s : PoolSystem υ τ) : Decidable s.NotDeadlocked :=
  inferInstanceAs (Decidable (¬ _))

/-- The condition on the state before a step: a `notify_all` of the shutdown
finds `m_ready` set only while no more workers sleep than calls remain, this one
included. -/
def Sufficient (s : PoolSystem υ τ) : Action υ τ → Prop
  | .shut => ∀ left ∈ s.shutdown.left, 0 < left → s.pool.condition.ready = 1 →
      total Worker.sleeping s.worker ≤ left
  | _ => True

instance (s : PoolSystem υ τ) : DecidablePred s.Sufficient
  | .shut => inferInstanceAs (Decidable (∀ left ∈ s.shutdown.left, _))
  | .append _ | .push _ | .notify _ | .work _ | .quit | .waitForJobFinish => isTrue trivial

/-- The invariant: in the loop and behind it, the calls that remain and the
pending wake-up are enough for the workers that sleep. -/
structure ShutInv (s : PoolSystem υ τ) : Prop where
  exit : s.shutdown ≠ .idle → s.shutdown ≠ .storing → s.pool.exit = true
  enough : ∀ left ∈ s.shutdown.left,
    total Worker.sleeping s.worker ≤ left + s.pool.condition.pending

variable {s : PoolSystem υ τ}

theorem shutInv_new : (new : PoolSystem υ τ).ShutInv :=
  ⟨fun h => absurd rfl h, by simp [new, Shutdown.left]⟩

theorem ShutInv.notDeadlocked (h : s.ShutInv) : s.NotDeadlocked := by
  rintro ⟨hleft, hready, ⟨u, hu⟩, -⟩
  have henough := h.enough 0 hleft
  have hsleep := le_total Worker.sleeping s.worker u
  rw [Condition.pending, if_neg hready] at henough
  rw [hu, Worker.sleeping] at hsleep
  omega

/-- A worker moves, and falls asleep before the loop only. -/
theorem ShutInv.move [DecidableEq υ] (h : s.ShutInv) (u : υ) {w : Worker τ} {p : ThreadPool τ}
    (hexit : p.exit = s.pool.exit)
    (hcount : s.pool.exit = true →
      w.sleeping + s.pool.condition.pending ≤ (s.worker u).sleeping + p.condition.pending) :
    ({ s with pool := p, worker := Function.update s.worker u w } : PoolSystem υ τ).ShutInv := by
  refine ⟨fun h1 h2 => hexit.trans (h.exit h1 h2), fun left hleft => ?_⟩
  have hstored : s.pool.exit = true := by
    apply h.exit <;> intro he <;> simp [he, Shutdown.left] at hleft
  have henough := h.enough left hleft
  have hmove := total_update Worker.sleeping s.worker u w
  have := hcount hstored
  dsimp only
  omega

variable [DecidableEq υ] [DecidableEq τ]

theorem ShutInv.work (h : s.ShutInv) {u : υ} {s' : PoolSystem υ τ}
    (hs : s.step (.work u) = some s') : s'.ShutInv := by
  obtain ⟨⟨w, p⟩, hr, rfl⟩ := Option.map_eq_some_iff.mp hs
  have hmove := Worker.move_of_step hr
  generalize hw : s.worker u = v at hmove
  cases hmove with
  | test hopen => exact h.move u rfl fun hset => by simp [hopen] at hset
  | pass c hset hclear | wake c hset hclear =>
    exact h.move u rfl fun _ => by simp [hw, Worker.sleeping, hset, hclear]
  | _ => exact h.move u rfl fun _ => by simp [hw, Worker.sleeping]

theorem ShutInv.shut (h : s.ShutInv) (hok : s.Sufficient .shut) {s' : PoolSystem υ τ}
    (hs : s.step .shut = some s') : s'.ShutInv := by
  change s.shutStep = some s' at hs
  unfold shutStep at hs
  split at hs
  · cases hs
  · cases hs
    exact ⟨fun _ _ => rfl, by simp [Shutdown.left]⟩
  · rename_i hpoll
    have hexit := h.exit (by simp [hpoll]) (by simp [hpoll])
    split at hs
    · cases hs
      exact h
    · cases hs
      refine ⟨fun _ _ => hexit, fun left hleft => ?_⟩
      cases hleft
      have := total_le_card Worker.sleeping_le s.worker
      dsimp only
      omega
  · rename_i hnotify
    cases hs
    refine ⟨fun _ _ => h.exit (by simp [hnotify]) (by simp [hnotify]), fun left hleft => ?_⟩
    cases hleft
    exact h.enough 0 (by simp [hnotify, Shutdown.left])
  · rename_i k hnotify
    cases hs
    have hleft : s.shutdown.left = some (k + 1) := by rw [hnotify]; rfl
    refine ⟨fun _ _ => h.exit (by simp [hnotify]) (by simp [hnotify]), fun left hl => ?_⟩
    cases hl
    have henough := h.enough (k + 1) hleft
    simp only [Condition.pending_notify]
    by_cases hready : s.pool.condition.ready = 1
    · exact hok (k + 1) hleft (Nat.succ_pos k) hready
    · rw [Condition.pending, if_neg hready] at henough
      exact henough
  · rename_i hjoin
    split at hs
    · cases hs
      refine ⟨fun _ _ => h.exit (by simp [hjoin]) (by simp [hjoin]), fun left hleft => ?_⟩
      cases hleft
      exact h.enough 0 (by simp [hjoin, Shutdown.left])
    · cases hs
  · cases hs

theorem ShutInv.step (h : s.ShutInv) {a : Action υ τ} (hok : s.Sufficient a)
    {s' : PoolSystem υ τ} (hs : s.step a = some s') : s'.ShutInv := by
  cases a with
  | append task =>
    cases hs
    split
    · exact h
    · exact ⟨h.exit, h.enough⟩
  | push task =>
    simp only [PoolSystem.step] at hs
    split at hs
    · cases hs
      exact ⟨h.exit, h.enough⟩
    · cases hs
  | notify task =>
    simp only [PoolSystem.step] at hs
    split at hs
    · cases hs
      refine ⟨h.exit, fun left hleft => ?_⟩
      have henough := h.enough left hleft
      have hle : s.pool.condition.pending ≤ 1 := by
        unfold Condition.pending
        split <;> omega
      simp only [Condition.pending_notify]
      omega
    · cases hs
  | work u => exact h.work hs
  | quit | waitForJobFinish =>
    simp only [PoolSystem.step] at hs
    split at hs
    · cases hs
      exact ⟨fun _ h2 => absurd rfl h2, by simp [Shutdown.left]⟩
    · cases hs
  | shut => exact h.shut hok hs

/-- In every run whose shutdown notifies in time, with any other steps, no
worker is left asleep behind the notify loop. -/
theorem notDeadlocked_of_sufficient (h : ReachableIf step Sufficient new s) : s.NotDeadlocked :=
  (h.invariant shutInv_new fun _ _ _ h hok hs => h.step hok hs).notDeadlocked

/-- Both workers sleep, and the second notification waits for the first one to
be taken. -/
theorem notDeadlocked_of_sufficient_in_turn :
    ∃ s : PoolSystem (Fin 2) Nat,
      (s.shutdown = .returned ∧ ∀ u, s.worker u = .exited) ∧ s.NotDeadlocked := by
  obtain ⟨s, hs, hP⟩ : ∃ s : PoolSystem (Fin 2) Nat,
      ReachableIf step Sufficient new s ∧ (s.shutdown = .returned ∧ ∀ u, s.worker u = .exited) :=
    exists_reachable_of_run
      [.work 0, .work 0, .work 0, .work 0, .work 0, .work 1, .work 1, .work 1, .work 1, .work 1,
        .quit, .shut, .shut, .shut, .work 0, .shut, .work 1, .shut, .work 0, .work 0, .work 0,
        .work 0, .work 0, .work 1, .work 1, .work 1, .work 1, .work 1, .shut]
      (by decide +kernel)
  exact ⟨s, hP, notDeadlocked_of_sufficient hs⟩

/-- Both workers sleep, and both notifications come before one of them wakes. -/
theorem second_notify_is_lost :
    ∃ s : PoolSystem (Fin 2) Nat, Reachable step new s ∧ ¬ s.NotDeadlocked :=
  exists_reachable_of_run
    [.work 0, .work 0, .work 0, .work 0, .work 0, .work 1, .work 1, .work 1, .work 1, .work 1,
      .quit, .shut, .shut, .shut, .shut, .shut, .work 0, .work 0, .work 0, .work 0, .work 0,
      .work 0]
    (by decide +kernel)

end PoolSystem

end CppRpc
