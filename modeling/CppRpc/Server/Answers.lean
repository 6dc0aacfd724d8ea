import CppRpc.Server.Responses

/-!
# Where a response comes from

`RequestServer.Correlated` counts requests and responses by their method and
their number.  This is about their bytes: `FromReceived` says that each response
is what the function of a request wrote, for a request that `read_package`
returned on the same connection, whatever way the request took through the pool.

So a worker writes behind an array only for a frame that has been received and
does not fit its response.  `InBounds` is the property, `Fitting` the condition
on the frames, and `correlated_of_leavesRoom` the result: under it the responses
correlate with the requests, and each stays in its array.
-/

namespace CppRpc

open Proto3 Runs

namespace RequestServer

section AnyParser

variable [Parser] {ι ω υ : Type}

/-- The task is the call for a request of its connection. -/
def Known (s : RequestServer ι ω υ) (t : WorkerCaller ι) : Prop :=
  t.frame ∈ s.received ∧ t.func = methodOf t.ptr

/-- The invariant. -/
structure FromReceived [Fintype υ] (rpcFuncs : RpcFuncMap) (s : RequestServer ι ω υ) : Prop where
  handling : ∀ w c buf, s.readers w = .handling c buf → (c, buf) ∈ s.received
  pushing : ∀ w t, s.readers w = .pushing t → s.Known t
  pooled : ∀ t ∈ pooled s.pool s.worker, s.Known t
  answers : ∀ x ∈ s.responses, ∃ ptr, (x.1, ptr) ∈ s.received ∧
    workerCaller rpcFuncs (methodOf ptr) ptr = some x.2

variable [Fintype υ] {rpcFuncs : RpcFuncMap} {s : RequestServer ι ω υ}

omit [Parser] in
theorem pooled_appendTask {τ : Type} (p : ThreadPool τ) (worker : υ → Worker τ) (t : τ) :
    CppRpc.pooled { p with tasks := p.tasks.appendTask (some t) } worker =
      CppRpc.pooled p worker + {t} := by
  simp only [CppRpc.pooled, TaskQueue.appendTask, List.reduceOption_append, ← Multiset.coe_add]
  exact add_right_comm _ _ _

theorem fromReceived_new : (new : RequestServer ι ω υ).FromReceived rpcFuncs := by
  refine ⟨nofun, nofun, fun t ht => ?_, fun x hx => absurd hx List.not_mem_nil⟩
  have hassigned : total Worker.assigned (new : RequestServer ι ω υ).worker = 0 :=
    total_eq_zero fun _ => rfl
  have hinTask : total Worker.inTask (new : RequestServer ι ω υ).worker = 0 :=
    total_eq_zero fun _ => rfl
  rw [CppRpc.pooled, hassigned, hinTask] at ht
  exact absurd ht (Multiset.notMem_zero t)

/-- The task that a step of a worker ends. -/
theorem FromReceived.ends [DecidableEq υ] (h : s.FromReceived rpcFuncs) {u : υ}
    {r : Worker (WorkerCaller ι) × ThreadPool (WorkerCaller ι)}
    (hstep : (s.worker u).step s.pool = some r) : ∀ t ∈ (s.worker u).ends, s.Known t := by
  intro t ht
  apply h.pooled t
  rw [← pooled_step (show (s.worker u).step s.pool = some (r.1, r.2) from hstep)]
  exact Multiset.mem_add.mpr (Or.inr ht)

section Readers

variable [DecidableEq ω]

/-- A reader goes on, and the pool keeps its tasks. -/
theorem FromReceived.goto (h : s.FromReceived rpcFuncs) {w : ω} {r : RequestReader ι}
    (hhandling : ∀ c buf, r = .handling c buf → (c, buf) ∈ s.received)
    (hpushing : ∀ t, r = .pushing t → s.Known t) (condition : Condition)
    (unhandled : List (OnConnection ι)) :
    ({ s with
      pool := { s.pool with condition }
      readers := Function.update s.readers w r
      unhandled } : RequestServer ι ω υ).FromReceived rpcFuncs := by
  refine ⟨fun w' c buf hr => ?_, fun w' t hr => ?_, h.pooled, h.answers⟩
  · by_cases hw : w' = w
    · subst hw
      simp only [Function.update_self] at hr
      exact hhandling c buf hr
    · simp only [Function.update_of_ne hw] at hr
      exact h.handling w' c buf hr
  · by_cases hw : w' = w
    · subst hw
      simp only [Function.update_self] at hr
      exact hpushing t hr
    · simp only [Function.update_of_ne hw] at hr
      exact h.pushing w' t hr

theorem FromReceived.readPackage (h : s.FromReceived rpcFuncs) {w : ω} {c : ι} (buf : List UInt8) :
    ({ s with
      readers := Function.update s.readers w (.handling c buf)
      received := s.received ++ [(c, buf)] } : RequestServer ι ω υ).FromReceived rpcFuncs := by
  have hmore : ∀ x ∈ s.received, x ∈ s.received ++ [(c, buf)] := fun x hx =>
    List.mem_append_left _ hx
  refine ⟨fun w' c' buf' hr => ?_, fun w' t hr => ?_, fun t ht => ?_, fun x hx => ?_⟩
  · by_cases hw : w' = w
    · subst hw
      simp only [Function.update_self, RequestReader.handling.injEq] at hr
      obtain ⟨rfl, rfl⟩ := hr
      exact List.mem_append_right _ (List.mem_singleton.mpr rfl)
    · simp only [Function.update_of_ne hw] at hr
      exact hmore _ (h.handling w' c' buf' hr)
  · by_cases hw : w' = w
    · subst hw
      simp only [Function.update_self, reduceCtorEq] at hr
    · simp only [Function.update_of_ne hw] at hr
      exact ⟨hmore _ (h.pushing w' t hr).1, (h.pushing w' t hr).2⟩
  · exact ⟨hmore _ (h.pooled t ht).1, (h.pooled t ht).2⟩
  · obtain ⟨ptr, hptr, hout⟩ := h.answers x hx
    exact ⟨ptr, hmore _ hptr, hout⟩

theorem FromReceived.push (h : s.FromReceived rpcFuncs) {w : ω} {t : WorkerCaller ι}
    (hr : s.readers w = .pushing t) :
    ({ s with
      pool := { s.pool with tasks := s.pool.tasks.appendTask (some t) }
      readers := Function.update s.readers w (.notifying t.handle) } :
      RequestServer ι ω υ).FromReceived rpcFuncs := by
  have hgoto := h.goto (w := w) (r := .notifying t.handle) nofun nofun s.pool.condition s.unhandled
  refine ⟨hgoto.handling, hgoto.pushing, fun t' ht' => ?_, h.answers⟩
  rw [pooled_appendTask] at ht'
  rcases Multiset.mem_add.mp ht' with ht' | ht'
  · exact h.pooled t' ht'
  · rw [Multiset.mem_singleton.mp ht']
    exact h.pushing w t hr

end Readers

omit [Parser] in
/-- What a worker passes to `write_package` is written for the task it ends. -/
theorem mem_respondTo {v : Worker (WorkerCaller ι)} {out : List (OnConnection ι)}
    (h : respondTo rpcFuncs v = some out) {x : OnConnection ι} (hx : x ∈ out) :
    ∃ t ∈ v.ends, x.1 = t.handle ∧ workerCaller rpcFuncs t.func t.ptr = some x.2 := by
  unfold respondTo at h
  split at h
  · rename_i t
    obtain ⟨o, ho, rfl⟩ := Option.map_eq_some_iff.mp h
    rw [List.mem_singleton.mp hx]
    exact ⟨t, List.mem_singleton.mpr rfl, rfl, ho⟩
  · cases h
    exact absurd hx List.not_mem_nil

theorem FromReceived.work [DecidableEq υ] [DecidableEq ω] (h : s.FromReceived rpcFuncs) {u : υ}
    {s' : RequestServer ι ω υ} (hs : s.step rpcFuncs (.work u) = some s') :
    s'.FromReceived rpcFuncs := by
  obtain ⟨out, hout, hs⟩ := Option.bind_eq_some_iff.mp hs
  obtain ⟨⟨v, p⟩, hstep, rfl⟩ := Option.map_eq_some_iff.mp hs
  refine ⟨h.handling, h.pushing, fun t ht => h.pooled t ?_, fun x hx => ?_⟩
  · rw [← pooled_step hstep]
    exact Multiset.mem_add.mpr (Or.inl ht)
  · rcases List.mem_append.mp hx with hx | hx
    · exact h.answers x hx
    · obtain ⟨t, ht, hhandle, hwritten⟩ := mem_respondTo hout hx
      obtain ⟨hmem, hfunc⟩ := h.ends hstep t ht
      rw [hfunc] at hwritten
      rw [hhandle]
      exact ⟨t.ptr, hmem, hwritten⟩

theorem FromReceived.step [DecidableEq υ] [DecidableEq ω] (h : s.FromReceived rpcFuncs)
    {a : Action ι ω υ} {s' : RequestServer ι ω υ} (hs : s.step rpcFuncs a = some s') :
    s'.FromReceived rpcFuncs := by
  cases a with
  | readStart w c =>
    simp only [RequestServer.step] at hs
    split at hs
    · cases hs
      exact h.goto (r := .reading c) (by simp) (by simp) s.pool.condition s.unhandled
    · cases hs
  | readPackage w buf =>
    simp only [RequestServer.step] at hs
    split at hs
    · cases hs
      exact h.readPackage buf
    · cases hs
  | handleRequest w =>
    simp only [RequestServer.step] at hs
    split at hs
    · rename_i c buf hr
      have hbuf := h.handling w c buf hr
      split at hs
      · cases hs
        exact h.goto (r := .reading c) (by simp) (by simp) s.pool.condition _
      · rename_i func ptr hsome
        obtain ⟨rfl, rfl, -⟩ := handleRequest_eq_some hsome
        cases hs
        apply h.goto _ _ s.pool.condition s.unhandled
        · intro c' buf' hr'
          split at hr' <;> cases hr'
        · intro t ht
          split at ht
          · cases ht
          · cases ht
            exact ⟨hbuf, rfl⟩
    · cases hs
  | push w =>
    simp only [RequestServer.step] at hs
    split at hs
    · rename_i t hr
      cases hs
      exact h.push hr
    · cases hs
  | notify w =>
    simp only [RequestServer.step] at hs
    split at hs
    · rename_i c hr
      cases hs
      exact h.goto (r := .reading c) (by simp) (by simp) _ s.unhandled
    · cases hs
  | readEnd w =>
    simp only [RequestServer.step] at hs
    split at hs
    · cases hs
      exact h.goto (r := .outside) (by simp) (by simp) s.pool.condition s.unhandled
    · cases hs
  | work u => exact h.work hs

/-! ## Every response in its array -/

/-- No worker is about to write behind the array of its task. -/
def InBounds (rpcFuncs : RpcFuncMap) (s : RequestServer ι ω υ) : Prop :=
  ∀ u, (respondTo rpcFuncs (s.worker u)).isSome

instance (s : RequestServer ι ω υ) : Decidable (s.InBounds rpcFuncs) :=
  inferInstanceAs (Decidable (∀ _, _))

/-- The condition on the frames: each leaves room for its response. -/
def Fitting (defs : List (FuncDef × CppFunction)) (_ : RequestServer ι ω υ) :
    Action ι ω υ → Prop
  | .readPackage _ buf => LeavesRoom defs buf
  | _ => True

instance (defs : List (FuncDef × CppFunction)) (s : RequestServer ι ω υ) :
    DecidablePred (Fitting defs s)
  | .readPackage _ buf => inferInstanceAs (Decidable (LeavesRoom defs buf))
  | .readStart _ _ | .handleRequest _ | .push _ | .notify _ | .readEnd _ | .work _ =>
      inferInstanceAs (Decidable True)

omit [Fintype υ] in
/-- Only `read_package` brings a frame. -/
theorem mem_received_of_step [DecidableEq υ] [DecidableEq ω] {a : Action ι ω υ}
    {s' : RequestServer ι ω υ} (hs : s.step rpcFuncs a = some s') {x : OnConnection ι}
    (hx : x ∈ s'.received) : x ∈ s.received ∨ ∃ w, a = .readPackage w x.2 := by
  cases a with
  | readPackage w buf =>
    simp only [RequestServer.step] at hs
    split at hs
    · cases hs
      rcases List.mem_append.mp hx with hx | hx
      · exact Or.inl hx
      · rw [List.mem_singleton.mp hx]
        exact Or.inr ⟨w, rfl⟩
    · cases hs
  | work u =>
    obtain ⟨out, -, hs⟩ := Option.bind_eq_some_iff.mp hs
    obtain ⟨r, -, rfl⟩ := Option.map_eq_some_iff.mp hs
    exact Or.inl hx
  | handleRequest w =>
    simp only [RequestServer.step] at hs
    split at hs
    · split at hs
      · cases hs
        exact Or.inl hx
      · cases hs
        exact Or.inl hx
    · cases hs
  | readStart w c | push w | notify w | readEnd w =>
    simp only [RequestServer.step] at hs
    split at hs
    · cases hs
      exact Or.inl hx
    · cases hs

/-- Where all frames that have been received fit, so does the next response. -/
theorem inBounds_of_received [DecidableEq ι] [Fintype ω] [DecidableEq υ]
    (hinv : s.Inv rpcFuncs) (hfrom : s.FromReceived rpcFuncs)
    (hfits : ∀ x ∈ s.received, ResponseFits rpcFuncs x.2) : s.InBounds rpcFuncs := by
  intro u
  cases hu : s.worker u with
  | executing task =>
    cases task with
    | none => rfl
    | some t =>
      have hstep : (s.worker u).step s.pool = some (.finishing, s.pool) := by rw [hu]; rfl
      have hends : t ∈ (s.worker u).ends := by rw [hu]; exact List.mem_singleton.mpr rfl
      obtain ⟨hreceived, -⟩ := hfrom.ends hstep t hends
      have hpooled : t ∈ s.tasks := by
        rw [tasks, ← pooled_step hstep]
        exact Multiset.mem_add.mpr (Or.inr (Multiset.mem_add.mpr (Or.inr hends)))
      have hcaller := hfits _ hreceived _ (hinv.bound t hpooled)
      rw [respondTo, Option.isSome_map]
      exact hcaller
  | _ => rfl

variable [DecidableEq ι] [Fintype ω] [DecidableEq υ] [DecidableEq ω]

theorem inBounds_of_fitting {defs : List (FuncDef × CppFunction)} (hagree : Agreeing defs)
    (h : ReachableIf (RequestServer.step (registered defs)) (Fitting defs) new s) :
    s.InBounds (registered defs) := by
  have hinv : s.Inv (registered defs) :=
    h.invariant inv_new fun _ _ _ hi _ hs => hi.step hagree hs
  have hfrom : s.FromReceived (registered defs) :=
    h.invariant fromReceived_new fun _ _ _ hi _ hs => hi.step hs
  apply inBounds_of_received hinv hfrom
  refine h.invariant (P := fun s => ∀ x ∈ s.received, ResponseFits (registered defs) x.2)
    (fun x hx => absurd hx List.not_mem_nil) fun s a s' hi hok hs x hx => ?_
  rcases mem_received_of_step hs hx with hx | ⟨w, rfl⟩
  · exact hi x hx
  · exact responseFits_of_leavesRoom hagree hok

/-- In every run in which each frame leaves room for its response, the responses
on a connection are for its requests, one for each, all requests with a function
are answered when the server is idle, and no response is longer than its array. -/
theorem correlated_of_leavesRoom {defs : List (FuncDef × CppFunction)} (hagree : Agreeing defs)
    (h : ReachableIf (RequestServer.step (registered defs)) (Fitting defs) new s) :
    s.Correlated (registered defs) ∧ s.InBounds (registered defs) := by
  have hinv : s.Inv (registered defs) :=
    h.invariant inv_new fun _ _ _ hi _ hs => hi.step hagree hs
  exact ⟨hinv.correlated, inBounds_of_fitting hagree h⟩

end AnyParser

/-- Two connections with a request for `sub` each, answered in the other order,
and a request for a function that there is not. -/
theorem correlated_of_leavesRoom_two_connections :
    ∃ s : RequestServer (Fin 2) (Fin 2) (Fin 2),
      (s.responses.map Prod.fst = [1, 0] ∧ s.unhandled.length = 1) ∧
        s.Correlated (registered [(subDef, sub)]) ∧ s.InBounds (registered [(subDef, sub)]) := by
  obtain ⟨s, hs, hP⟩ : ∃ s : RequestServer (Fin 2) (Fin 2) (Fin 2),
      ReachableIf (RequestServer.step (registered [(subDef, sub)])) (Fitting [(subDef, sub)]) new
        s ∧ s.responses.map Prod.fst = [1, 0] ∧ s.unhandled.length = 1 :=
    exists_reachable_of_run
      [.readStart 0 0, .readPackage 0 [10, 3, 115, 117, 98, 16, 1, 24, 5], .handleRequest 0,
        .push 0, .work 0, .work 0, .readStart 1 1,
        .readPackage 1 [10, 3, 115, 117, 98, 16, 1, 24, 172, 2, 32, 1], .handleRequest 1, .push 1,
        .notify 1, .notify 0, .readPackage 1 [10, 1, 97, 16, 2], .handleRequest 1, .readEnd 1,
        .readEnd 0, .work 1, .work 1, .work 1, .work 1, .work 1, .work 0, .work 0, .work 0]
      (by decide +kernel)
  exact ⟨s, hP, correlated_of_leavesRoom (agreeing_merge _) hs⟩

/-- A worker with the request `sub(1, 2)`: the response has 18 bytes, and the
array 11. -/
theorem response_overflows_in_run :
    ∃ s : RequestServer Unit Unit Unit,
      Reachable (RequestServer.step (registered [(subDef, sub)])) new s ∧
        ¬ (s.Correlated (registered [(subDef, sub)]) ∧
          s.InBounds (registered [(subDef, sub)])) := by
  obtain ⟨s, hs, hP⟩ : ∃ s : RequestServer Unit Unit Unit,
      Reachable (RequestServer.step (registered [(subDef, sub)])) new s ∧
        ¬ s.InBounds (registered [(subDef, sub)]) :=
    exists_reachable_of_run
      [.readStart () (), .readPackage () [10, 3, 115, 117, 98, 16, 1, 24, 1, 32, 2],
        .handleRequest (), .push (), .notify (), .work (), .work (), .work ()]
      (by decide +kernel)
  exact ⟨s, hs, fun h => hP h.2⟩

end RequestServer

end CppRpc
