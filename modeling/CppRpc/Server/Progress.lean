import CppRpc.Server.Answers
import CppRpc.Util.PoolProgress

/-!
# What is left to do at the server

The steps that carry a request on, from `read_socket` to the response, for a set
of connections where `read_package` would find a package.  `Carries` says that an
epoll worker comes to such a connection only, and leaves it when there is nothing
to read any more.

Each of these steps takes `effort` down.  A request on its way through the server
stands for `cost`, what its response costs behind the server, and
`Lively.effort_work` gives this back to the step that writes the response.  A
package that is read costs the workers that have come for it in vain.
-/

namespace CppRpc

open Runs

namespace RequestReader

variable {ι : Type} (waiting : ι → Prop) [DecidablePred waiting] (cost : Nat)

/-- What an epoll worker has to do. -/
def effort : RequestReader ι → Nat
  | .outside => 1
  | .reading c => if waiting c then 0 else 2
  | .handling _ _ => 15 + cost
  | .pushing _ => 14
  | .notifying _ => 9

theorem effort_reading_le (c : ι) : (reading c).effort waiting cost ≤ 2 := by
  unfold effort
  dsimp only
  split <;> omega

variable {waiting}

/-- More packages mean less to do for those who wait, and fewer at most two
steps more. -/
theorem effort_mono {waiting' : ι → Prop} [DecidablePred waiting']
    (h : ∀ c, waiting c → waiting' c) (r : RequestReader ι) :
    r.effort waiting' cost ≤ r.effort waiting cost := by
  cases r with
  | reading c =>
    simp only [effort]
    by_cases hc : waiting c
    · rw [if_pos hc, if_pos (h c hc)]
    · rw [if_neg hc]
      split <;> omega
  | _ => exact Nat.le_refl _

variable (waiting) in
theorem effort_le_add (waiting' : ι → Prop) [DecidablePred waiting'] (r : RequestReader ι) :
    r.effort waiting' cost ≤ r.effort waiting cost + 2 := by
  cases r with
  | reading c => exact (effort_reading_le waiting' cost c).trans (Nat.le_add_left _ _)
  | _ => exact Nat.le_add_right _ _

end RequestReader

namespace RequestReader

/-- `read_package` returns false. -/
def HasRead (waiting : ι → Prop) : RequestReader ι → Prop
  | .reading c => ¬ waiting c
  | _ => False

instance (waiting : ι → Prop) [DecidablePred waiting] (r : RequestReader ι) :
    Decidable (r.HasRead waiting) :=
  match r with
  | .reading c => inferInstanceAs (Decidable (¬ waiting c))
  | .outside | .handling _ _ | .pushing _ | .notifying _ => isFalse id

end RequestReader

namespace RequestServer

variable {ι ω υ : Type}

/-- The step carries a request on. -/
def Carries (waiting : ι → Prop) (s : RequestServer ι ω υ) : Action ι ω υ → Prop
  | .readStart _ c => waiting c
  | .readEnd w => (s.readers w).HasRead waiting
  | .readPackage _ _ => False
  | .handleRequest _ | .push _ | .notify _ | .work _ => True

instance (waiting : ι → Prop) [DecidablePred waiting] (s : RequestServer ι ω υ) :
    DecidablePred (s.Carries waiting)
  | .readStart _ c => inferInstanceAs (Decidable (waiting c))
  | .readEnd _ => inferInstanceAs (Decidable (RequestReader.HasRead _ _))
  | .readPackage _ _ => isFalse id
  | .handleRequest _ | .push _ | .notify _ | .work _ => isTrue trivial

/-- An epoll worker is before its `notify_all`. -/
def Owes (s : RequestServer ι ω υ) : Prop := ∃ w c, s.readers w = .notifying c

/-- The invariant. -/
def Lively (s : RequestServer ι ω υ) : Prop := s.pool.Watched s.worker s.Owes

section Effort

variable [Fintype ω] [Fintype υ] (waiting : ι → Prop) [DecidablePred waiting] (cost : Nat)

/-- What is left to do at the server. -/
def effort (s : RequestServer ι ω υ) : Nat :=
  cost * Multiset.card s.tasks + s.pool.effort s.worker +
    total (RequestReader.effort waiting cost) s.readers

variable {waiting} {cost} {s : RequestServer ι ω υ}

theorem effort_mono {waiting' : ι → Prop} [DecidablePred waiting']
    (h : ∀ c, waiting c → waiting' c) : s.effort waiting' cost ≤ s.effort waiting cost := by
  unfold effort
  refine Nat.add_le_add_left (Finset.sum_le_sum fun w _ => ?_) _
  exact RequestReader.effort_mono cost h _

variable (s waiting cost) in
theorem effort_le_add (waiting' : ι → Prop) [DecidablePred waiting'] :
    s.effort waiting' cost ≤ s.effort waiting cost + 2 * Fintype.card ω := by
  have hsum : total (RequestReader.effort waiting' cost) s.readers ≤
      total (RequestReader.effort waiting cost) s.readers + 2 * Fintype.card ω := by
    calc total (RequestReader.effort waiting' cost) s.readers
        ≤ ∑ w, ((s.readers w).effort waiting cost + 2) :=
          Finset.sum_le_sum fun w _ => RequestReader.effort_le_add waiting cost waiting' _
      _ = _ := by simp [total, Finset.sum_add_distrib, mul_comm]
  unfold effort
  omega

end Effort

theorem lively_new : (new : RequestServer ι ω υ).Lively := ThreadPool.watched_new _

section Step

variable [DecidableEq ω] {rpcFuncs : RpcFuncMap} {s s' : RequestServer ι ω υ}

/-- An epoll worker that owes nothing goes on. -/
theorem Owes.goto (h : s.Owes) {w : ω} (hw : ∀ c, s.readers w ≠ .notifying c)
    (r : RequestReader ι) :
    ({ s with readers := Function.update s.readers w r } : RequestServer ι ω υ).Owes := by
  obtain ⟨v, c, hv⟩ := h
  refine ⟨v, c, ?_⟩
  dsimp only
  rw [Function.update_of_ne, hv]
  rintro rfl
  exact hw c hv

theorem Lively.step [DecidableEq υ] (h : s.Lively) {a : Action ι ω υ}
    (hs : s.step rpcFuncs a = some s') :
    s'.Lively := by
  cases a with
  | readStart w c | readPackage w buf | readEnd w =>
    simp only [RequestServer.step] at hs
    split at hs
    · rename_i hr
      cases hs
      exact h.mono fun howes => howes.goto (by simp [hr]) _
    · cases hs
  | handleRequest w =>
    simp only [RequestServer.step] at hs
    split at hs
    · rename_i c buf hr
      split at hs
      · cases hs
        exact h.mono fun howes => howes.goto (by simp [hr]) _
      · cases hs
        exact h.mono fun howes => howes.goto (by simp [hr]) _
    · cases hs
  | push w =>
    simp only [RequestServer.step] at hs
    split at hs
    · rename_i t hr
      cases hs
      exact h.push t ⟨w, t.handle, Function.update_self ..⟩
    · cases hs
  | notify w =>
    simp only [RequestServer.step] at hs
    split at hs
    · cases hs
      exact h.notify _
    · cases hs
  | work u =>
    obtain ⟨out, -, hs⟩ := Option.bind_eq_some_iff.mp hs
    obtain ⟨⟨w, p⟩, hstep, rfl⟩ := Option.map_eq_some_iff.mp hs
    exact h.work hstep

end Step

/-! ## The steps take the effort down -/

section Effort

variable [Fintype ω] [Fintype υ] [DecidableEq ω] (waiting : ι → Prop) [DecidablePred waiting]
  (cost : Nat) {rpcFuncs : RpcFuncMap} {s s' : RequestServer ι ω υ}

/-- An epoll worker goes on with the task that it has. -/
theorem effort_goto (w : ω) (r : RequestReader ι) (htask : r.task = (s.readers w).task) :
    ({ s with readers := Function.update s.readers w r } : RequestServer ι ω υ).effort waiting cost
        + (s.readers w).effort waiting cost =
      s.effort waiting cost + r.effort waiting cost := by
  have htasks : total RequestReader.task (Function.update s.readers w r) +
      pooled s.pool s.worker = s.tasks := by
    simpa using tasks_update (congrArg (· + 0) htask)
  have htotal := total_update (RequestReader.effort waiting cost) s.readers w r
  simp only [effort, tasks]
  rw [htasks, tasks]
  omega

theorem effort_readPackage {w : ω} {c : ι} (hr : s.readers w = .reading c) (buf : List UInt8)
    (waiting' : ι → Prop) [DecidablePred waiting'] :
    ({ s with
      readers := Function.update s.readers w (.handling c buf)
      received := s.received ++ [(c, buf)] } : RequestServer ι ω υ).effort waiting' cost ≤
      s.effort waiting cost + 15 + cost + 2 * Fintype.card ω := by
  have hgoto := effort_goto (s := s) waiting' cost w (.handling c buf) (by rw [hr]; rfl)
  have hle := effort_le_add waiting cost s waiting'
  have hhandling : (RequestReader.handling c buf).effort waiting' cost = 15 + cost := rfl
  show ({ s with readers := Function.update s.readers w (.handling c buf) } :
    RequestServer ι ω υ).effort waiting' cost ≤ _
  omega

/-- What a worker ends is off the books. -/
theorem Lively.effort_work [DecidableEq υ] (h : s.Lively) {u : υ}
    (hs : s.step rpcFuncs (.work u) = some s') :
    s'.effort waiting cost + cost * (s.worker u).ends.length < s.effort waiting cost := by
  obtain ⟨out, -, hs⟩ := Option.bind_eq_some_iff.mp hs
  obtain ⟨⟨w, p⟩, hstep, rfl⟩ := Option.map_eq_some_iff.mp hs
  have hpool := h.effort_lt hstep
  have hcard : Multiset.card s.tasks = Multiset.card (total RequestReader.task s.readers +
      pooled p (Function.update s.worker u w)) + (s.worker u).ends.length := by
    rw [← Multiset.coe_card (s.worker u).ends, ← Multiset.card_add, add_assoc, pooled_step hstep,
      tasks]
  have hcost := congrArg (cost * ·) hcard
  simp only [Nat.mul_add] at hcost
  simp only [effort, tasks] at hcost ⊢
  omega

theorem Lively.effort_carries [DecidableEq υ] (h : s.Lively) {a : Action ι ω υ}
    (ha : s.Carries waiting a) (hs : s.step rpcFuncs a = some s') :
    s'.effort waiting cost < s.effort waiting cost := by
  cases a with
  | readStart w c =>
    simp only [RequestServer.step] at hs
    split at hs
    · rename_i hr
      cases hs
      have hgoto := effort_goto (s := s) waiting cost w (.reading c) (by rw [hr]; rfl)
      have hreading : (RequestReader.reading c).effort waiting cost = 0 := if_pos ha
      rw [hr, hreading] at hgoto
      simp only [RequestReader.effort] at hgoto
      omega
    · cases hs
  | readPackage w buf => exact ha.elim
  | handleRequest w =>
    simp only [RequestServer.step] at hs
    split at hs
    · rename_i c buf hr
      split at hs
      · cases hs
        have hgoto := effort_goto (s := s) waiting cost w (.reading c) (by rw [hr]; rfl)
        have hreading := RequestReader.effort_reading_le waiting cost c
        rw [hr] at hgoto
        simp only [RequestReader.effort] at hgoto hreading
        show ({ s with readers := Function.update s.readers w (.reading c) } :
          RequestServer ι ω υ).effort waiting cost < _
        omega
      · rename_i func ptr hsome
        cases hs
        rw [h.opened, if_neg Bool.false_ne_true]
        have htotal := total_update (RequestReader.effort waiting cost) s.readers w
          (.pushing ⟨c, func, ptr⟩)
        have htasks : total RequestReader.task (Function.update s.readers w
            (.pushing ⟨c, func, ptr⟩)) + pooled s.pool s.worker + 0 =
              s.tasks + {⟨c, func, ptr⟩} := by
          apply tasks_update
          rw [hr]
          exact add_comm _ _
        rw [add_zero] at htasks
        rw [hr] at htotal
        simp only [effort, tasks, RequestReader.effort] at htotal ⊢
        rw [htasks, tasks, Multiset.card_add, Multiset.card_singleton, Nat.mul_add, Nat.mul_one]
        omega
    · cases hs
  | push w =>
    simp only [RequestServer.step] at hs
    split at hs
    · rename_i t hr
      cases hs
      have htotal := total_update (RequestReader.effort waiting cost) s.readers w
        (.notifying t.handle)
      have htasks : total RequestReader.task (Function.update s.readers w (.notifying t.handle)) +
          pooled s.pool s.worker + {t} = s.tasks + 0 := by
        apply tasks_update
        rw [hr]
        exact add_comm _ _
      rw [add_zero, add_assoc, ← pooled_appendTask] at htasks
      rw [hr] at htotal
      simp only [effort, tasks, RequestReader.effort, ThreadPool.effort] at htotal ⊢
      rw [htasks, tasks, TaskQueue.appendTask, List.length_append, List.length_singleton]
      omega
    · cases hs
  | notify w =>
    simp only [RequestServer.step] at hs
    split at hs
    · rename_i c hr
      cases hs
      have hgoto := effort_goto (s := s) waiting cost w (.reading c) (by rw [hr]; rfl)
      have hreading := RequestReader.effort_reading_le waiting cost c
      rw [hr] at hgoto
      simp only [effort, tasks, pooled, ThreadPool.effort, RequestReader.effort,
        Condition.pending_notify] at hgoto hreading ⊢
      omega
    · cases hs
  | readEnd w =>
    simp only [RequestServer.step] at hs
    split at hs
    · rename_i c hr
      cases hs
      have hgoto := effort_goto (s := s) waiting cost w .outside (by rw [hr]; rfl)
      have hdone : (s.readers w).HasRead waiting := ha
      rw [hr] at hdone
      have hreading : (RequestReader.reading c).effort waiting cost = 2 := if_neg hdone
      rw [hr, hreading] at hgoto
      simp only [RequestReader.effort] at hgoto
      omega
    · cases hs
  | work u => exact lt_of_le_of_lt (Nat.le_add_right _ _) (h.effort_work waiting cost hs)

end Effort

end RequestServer

end CppRpc
