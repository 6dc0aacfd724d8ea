import CppRpc.Server.Answers

/-!
# Responses in the order of the requests

A client may send several requests on one connection before the first response.
With one worker in the pool they are answered in this order, whatever the other
connections do.

`Alone` is the condition, what one-shot events are for: a worker of epoll starts
`read_socket` only where no other one is in it.  With `Fitting` it makes `InTurn`:
a response that is longer than its array writes behind it.  A request with a
function is then at the reader of its connection, in the queue, or at the worker, and
`InLine` says that these and the responses, in this order, are the requests that
have been received.  `queue_step` is the first-in, first-out of the pool.
-/

namespace CppRpc

open Proto3 Runs

/-! ## One worker -/

section Queue

variable {τ : Type}

/-- The task of a worker. -/
def Worker.current : Worker τ → List τ
  | .holding task | .executing task => task.toList
  | _ => []

/-- The tasks of a pool with one worker, the oldest first. -/
def inQueue (p : ThreadPool τ) (w : Worker τ) : List τ := w.current ++ p.tasks.reduceOption

/-- A step of the worker ends the oldest task, or none. -/
theorem queue_step {p p' : ThreadPool τ} {w w' : Worker τ} (h : w.step p = some (w', p')) :
    w.ends ++ inQueue p' w' = inQueue p w := by
  cases Worker.move_of_step h with
  | takeNothing hnone =>
    have hrest : p.tasks.takeTask.2.reduceOption = p.tasks.reduceOption := by
      cases htasks : p.tasks with
      | nil => rfl
      | cons task q =>
        rw [htasks] at hnone
        rw [show task = none from hnone]
        rfl
    exact hrest
  | take t hsome =>
    have hrest : t :: p.tasks.takeTask.2.reduceOption = p.tasks.reduceOption := by
      cases htasks : p.tasks with
      | nil =>
        rw [htasks] at hsome
        cases hsome
      | cons task q =>
        rw [htasks] at hsome
        rw [show task = some t from hsome]
        rfl
    exact hrest
  | _ => rfl

theorem inQueue_appendTask (p : ThreadPool τ) (w : Worker τ) (t : τ) :
    inQueue { p with tasks := p.tasks.appendTask (some t) } w = inQueue p w ++ [t] := by
  rw [inQueue, inQueue, List.append_assoc]
  congr 1
  exact List.reduceOption_append p.tasks [some t]

end Queue

/-! ## A reader at its connection -/

namespace RequestReader

variable {ι : Type}

/-- The connection that an epoll worker is at. -/
def connection : RequestReader ι → Option ι
  | .outside => none
  | .reading c | .handling c _ | .notifying c => some c
  | .pushing task => some task.handle

/-- The request that it has in its hands, if there is a function for it. -/
def pending [Parser] (rpcFuncs : RpcFuncMap) : RequestReader ι → List (Value × Value)
  | .handling _ buf =>
      if (rpcFuncs (methodOf buf)).isSome then [RequestServer.pairOf buf] else []
  | .pushing task => [RequestServer.pairOf task.ptr]
  | _ => []

end RequestReader

namespace RequestServer

open RequestReader (connection pending)

variable {ι ω : Type}

/-- No other epoll worker is at the connection. -/
def Alone (s : RequestServer ι ω Unit) : Action ι ω Unit → Prop
  | .readStart _ c => ∀ w, connection (s.readers w) ≠ some c
  | _ => True

instance [Fintype ω] [DecidableEq ι] (s : RequestServer ι ω Unit) : DecidablePred s.Alone
  | .readStart _ c => inferInstanceAs (Decidable (∀ w, connection (s.readers w) ≠ some c))
  | .readPackage _ _ | .handleRequest _ | .push _ | .notify _ | .readEnd _ | .work _ =>
      inferInstanceAs (Decidable True)

section AnyParser

variable [Parser]

/-- No other epoll worker is at the connection, and the frame leaves room for its
response. -/
def InTurn (defs : List (FuncDef × CppFunction)) (s : RequestServer ι ω Unit)
    (a : Action ι ω Unit) : Prop :=
  s.Alone a ∧ Fitting defs s a

instance [Fintype ω] [DecidableEq ι] (defs : List (FuncDef × CppFunction))
    (s : RequestServer ι ω Unit) : DecidablePred (s.InTurn defs) :=
  fun _ => inferInstanceAs (Decidable (_ ∧ _))

variable [DecidableEq ι]

/-- The pairs of the frames on one connection, in order. -/
def pairsIn (c : ι) (frames : List (OnConnection ι)) : List (Value × Value) :=
  (frames.filter (·.1 = c)).map fun x => pairOf x.2

theorem pairsIn_append (c : ι) (frames frames' : List (OnConnection ι)) :
    pairsIn c (frames ++ frames') = pairsIn c frames ++ pairsIn c frames' := by
  rw [pairsIn, List.filter_append, List.map_append]
  rfl

@[simp] theorem pairsIn_nil (c : ι) : pairsIn c [] = [] := rfl

theorem pairsIn_singleton (c handle : ι) (buf : List UInt8) :
    pairsIn c [(handle, buf)] = if handle = c then [pairOf buf] else [] := by
  unfold pairsIn
  by_cases h : handle = c <;> simp [h]

/-- The requests of a connection that have a function, in order. -/
def answerable (rpcFuncs : RpcFuncMap) (c : ι) (s : RequestServer ι ω Unit) :
    List (Value × Value) :=
  (pairsIn c s.received).filter fun pair => (rpcFuncs pair.1).isSome

/-- What is at the reader of the connection. -/
structure AtReader (rpcFuncs : RpcFuncMap) (readers : ω → RequestReader ι) (c : ι)
    (rest : List (Value × Value)) : Prop where
  there : ∀ w, connection (readers w) = some c → (readers w).pending rpcFuncs = rest
  nobody : (∀ w, connection (readers w) ≠ some c) → rest = []

/-- The requests of a connection, from the response to the reader. -/
def InLine (rpcFuncs : RpcFuncMap) (s : RequestServer ι ω Unit) (c : ι) : Prop :=
  ∃ rest, AtReader rpcFuncs s.readers c rest ∧
    answerable rpcFuncs c s = pairsIn c s.responses ++
      pairsIn c ((inQueue s.pool (s.worker ())).map WorkerCaller.frame) ++ rest

/-- The invariant. -/
structure OrderInv (rpcFuncs : RpcFuncMap) (s : RequestServer ι ω Unit) : Prop where
  exclusive : ∀ w w' c, connection (s.readers w) = some c → connection (s.readers w') = some c →
    w = w'
  inLine : ∀ c, s.InLine rpcFuncs c

variable {rpcFuncs : RpcFuncMap} {s : RequestServer ι ω Unit}

theorem orderInv_new : (new : RequestServer ι ω Unit).OrderInv rpcFuncs :=
  ⟨nofun, fun _ => ⟨[], ⟨nofun, fun _ => rfl⟩, rfl⟩⟩

/-! ## The readers -/

section Readers

variable [DecidableEq ω] {readers : ω → RequestReader ι} {w : ω} {r : RequestReader ι} {c : ι}
  {rest : List (Value × Value)}

omit [Parser] [DecidableEq ι] in
theorem exclusive_update
    (h : ∀ w w' c, connection (readers w) = some c → connection (readers w') = some c → w = w')
    (hr : ∀ c, connection r = some c → connection (readers w) = some c ∨
      ∀ w', connection (readers w') ≠ some c) :
    ∀ v v' c, connection (Function.update readers w r v) = some c →
      connection (Function.update readers w r v') = some c → v = v' := by
  -- Whoever is at a connection of the new reader is this reader.
  have hother : ∀ v c, v ≠ w → connection (readers v) = some c → connection r ≠ some c := by
    intro v c hv hc hrc
    rcases hr c hrc with hw | hnobody
    · exact hv (h v w c hc hw)
    · exact hnobody v hc
  intro v v' c hv hv'
  by_cases hvw : v = w
  · by_cases hvw' : v' = w
    · rw [hvw, hvw']
    · rw [Function.update_of_ne hvw'] at hv'
      rw [hvw, Function.update_self] at hv
      exact absurd hv (hother v' c hvw' hv')
  · rw [Function.update_of_ne hvw] at hv
    by_cases hvw' : v' = w
    · rw [hvw', Function.update_self] at hv'
      exact absurd hv' (hother v c hvw hv)
    · rw [Function.update_of_ne hvw'] at hv'
      exact h v v' c hv hv'

omit [DecidableEq ι] in
/-- Another connection does not notice a step of a reader. -/
theorem AtReader.other (h : AtReader rpcFuncs readers c rest)
    (hw : connection (readers w) ≠ some c) (hr : connection r ≠ some c) :
    AtReader rpcFuncs (Function.update readers w r) c rest := by
  constructor
  · intro v hv
    by_cases hvw : v = w
    · rw [hvw, Function.update_self] at hv
      exact absurd hv hr
    · rw [Function.update_of_ne hvw] at hv ⊢
      exact h.there v hv
  · intro hnobody
    apply h.nobody
    intro v hv
    by_cases hvw : v = w
    · rw [hvw] at hv
      exact hw hv
    · exact hnobody v (by rw [Function.update_of_ne hvw]; exact hv)

omit [DecidableEq ι] in
/-- The reader of a connection goes on there, or comes there. -/
theorem atReader_self
    (h : ∀ w w' c, connection (readers w) = some c → connection (readers w') = some c → w = w')
    (hw : connection (readers w) = some c ∨ ∀ w', connection (readers w') ≠ some c)
    (hr : connection r = some c) :
    AtReader rpcFuncs (Function.update readers w r) c (r.pending rpcFuncs) := by
  constructor
  · intro v hv
    by_cases hvw : v = w
    · rw [hvw, Function.update_self]
    · rw [Function.update_of_ne hvw] at hv
      rcases hw with hw | hnobody
      · exact absurd (h v w c hv hw) hvw
      · exact absurd hv (hnobody v)
  · intro hnobody
    exact absurd (by rw [Function.update_self]; exact hr) (hnobody w)

omit [DecidableEq ι] in
/-- The reader of a connection leaves it. -/
theorem atReader_leave
    (h : ∀ w w' c, connection (readers w) = some c → connection (readers w') = some c → w = w')
    (hw : connection (readers w) = some c) (hr : connection r = none) :
    AtReader rpcFuncs (Function.update readers w r) c [] := by
  constructor
  · intro v hv
    by_cases hvw : v = w
    · rw [hvw, Function.update_self, hr] at hv
      cases hv
    · rw [Function.update_of_ne hvw] at hv
      exact absurd (h v w c hv hw) hvw
  · exact fun _ => rfl

end Readers

/-! ## The steps -/

section Steps

variable [DecidableEq ω] {w : ω} {r : RequestReader ι}

/-- A step of a reader at its connection `c`, which adds `m` to the requests
and `q` to the queue. -/
theorem OrderInv.reader (h : s.OrderInv rpcFuncs) {c : ι} {s' : RequestServer ι ω Unit}
    {m q : List (OnConnection ι)} (hw : connection (s.readers w) = some c)
    (hr : connection r = some c) (hreaders : s'.readers = Function.update s.readers w r)
    (hreceived : s'.received = s.received ++ m)
    (hqueue : (inQueue s'.pool (s'.worker ())).map WorkerCaller.frame =
      (inQueue s.pool (s.worker ())).map WorkerCaller.frame ++ q)
    (hresponses : s'.responses = s.responses) (hm : ∀ x ∈ m, x.1 = c)
    (hq : ∀ x ∈ q, x.1 = c)
    (hpending : (s.readers w).pending rpcFuncs ++
        (pairsIn c m).filter (fun pair => (rpcFuncs pair.1).isSome) =
      pairsIn c q ++ r.pending rpcFuncs) : s'.OrderInv rpcFuncs := by
  have hnone : ∀ {c'} {frames : List (OnConnection ι)}, c' ≠ c → (∀ x ∈ frames, x.1 = c) →
      pairsIn c' frames = [] := by
    intro c' frames hc' hframes
    rw [pairsIn, List.filter_eq_nil_iff.mpr, List.map_nil]
    intro x hx
    rw [hframes x hx]
    simpa using hc'.symm
  constructor
  · rw [hreaders]
    apply exclusive_update h.exclusive
    intro c' hc'
    rw [hr] at hc'
    rw [hw]
    exact Or.inl hc'
  · intro c'
    obtain ⟨rest, hat, hline⟩ := h.inLine c'
    unfold answerable at hline
    unfold InLine answerable
    rw [hreaders, hreceived, hqueue, hresponses, pairsIn_append, pairsIn_append,
      List.filter_append, hline]
    by_cases hc : c' = c
    · subst hc
      refine ⟨_, atReader_self h.exclusive (Or.inl hw) hr, ?_⟩
      rw [← hat.there w hw]
      simp only [List.append_assoc]
      rw [hpending]
    · refine ⟨rest, hat.other (by rw [hw]; simpa using Ne.symm hc)
        (by rw [hr]; simpa using Ne.symm hc), ?_⟩
      rw [hnone hc hm, hnone hc hq, List.filter_nil, List.append_nil, List.append_nil]

/-- What a worker passes to `write_package` stands for the task that it ends. -/
theorem pairsIn_respondTo {defs : List (FuncDef × CppFunction)} (hagree : Agreeing defs)
    {v : Worker (WorkerCaller ι)} {out : List (OnConnection ι)}
    (h : respondTo (registered defs) v = some out)
    (hbound : ∀ t ∈ v.ends, CppRpc.handleRequest (registered defs) t.ptr = some (t.func, t.ptr))
    (c : ι) : pairsIn c out = pairsIn c (v.ends.map WorkerCaller.frame) := by
  unfold respondTo at h
  split at h
  · rename_i t
    obtain ⟨o, ho, rfl⟩ := Option.map_eq_some_iff.mp h
    have hpair := pairOf_workerCaller hagree (hbound t (List.mem_singleton.mpr rfl)) ho
    show pairsIn c [(t.handle, o)] = pairsIn c [(t.handle, t.ptr)]
    rw [pairsIn_singleton, pairsIn_singleton, hpair]
  · rename_i hv
    cases h
    have hends : v.ends = [] := by
      unfold Worker.ends
      split
      · rename_i task
        cases task with
        | none => rfl
        | some t => exact absurd rfl (hv t)
      · rfl
    rw [hends]
    rfl

/-- A worker's step puts the response where its task was. -/
theorem OrderInv.work {defs : List (FuncDef × CppFunction)} (hagree : Agreeing defs) [Fintype ω]
    (h : s.OrderInv (registered defs)) (hinv : s.Inv (registered defs))
    {s' : RequestServer ι ω Unit}
    (hs : s.step (registered defs) (.work ()) = some s') : s'.OrderInv (registered defs) := by
  obtain ⟨out, hout, hs⟩ := Option.bind_eq_some_iff.mp hs
  obtain ⟨⟨v, p⟩, hstep, rfl⟩ := Option.map_eq_some_iff.mp hs
  have hqueue := queue_step hstep
  have hbound : ∀ t ∈ (s.worker ()).ends,
      CppRpc.handleRequest (registered defs) t.ptr = some (t.func, t.ptr) := by
    intro t ht
    apply hinv.bound t
    rw [tasks, ← pooled_step hstep]
    exact Multiset.mem_add.mpr (Or.inr (Multiset.mem_add.mpr (Or.inr ht)))
  refine ⟨h.exclusive, fun c => ?_⟩
  obtain ⟨rest, hat, hline⟩ := h.inLine c
  refine ⟨rest, hat, ?_⟩
  dsimp only
  rw [pairsIn_append, pairsIn_respondTo hagree hout hbound, Function.update_self]
  show answerable (registered defs) c s = _
  rw [hline, ← hqueue, List.map_append, pairsIn_append]
  simp only [List.append_assoc]

theorem OrderInv.step {defs : List (FuncDef × CppFunction)} (hagree : Agreeing defs) [Fintype ω]
    (h : s.OrderInv (registered defs)) (hinv : s.Inv (registered defs)) {a : Action ι ω Unit}
    (ha : s.Alone a) {s' : RequestServer ι ω Unit}
    (hs : s.step (registered defs) a = some s') : s'.OrderInv (registered defs) := by
  cases a with
  | readStart w c =>
    have halone : ∀ w, connection (s.readers w) ≠ some c := ha
    simp only [RequestServer.step] at hs
    split at hs
    · rename_i hr
      cases hs
      constructor
      · apply exclusive_update h.exclusive
        intro c' hc'
        cases hc'
        exact Or.inr halone
      · intro c'
        obtain ⟨rest, hat, hline⟩ := h.inLine c'
        by_cases hc : c' = c
        · subst hc
          rw [hat.nobody halone] at hline
          exact ⟨_, atReader_self h.exclusive (Or.inr halone) rfl, hline⟩
        · refine ⟨rest, hat.other (by rw [hr]; simp [connection]) ?_, hline⟩
          simpa [connection] using Ne.symm hc
    · cases hs
  | readPackage w buf =>
    simp only [RequestServer.step] at hs
    split at hs
    · rename_i c hr
      cases hs
      refine h.reader (w := w) (r := .handling c buf) (m := [(c, buf)]) (q := [])
        (by rw [hr]; rfl) rfl rfl rfl (List.append_nil _).symm rfl (by simp) (by simp) ?_
      rw [hr, pairsIn_singleton, if_pos rfl]
      simp only [pending, List.nil_append, pairsIn_nil, List.filter_cons, List.filter_nil]
      rfl
    · cases hs
  | handleRequest w =>
    simp only [RequestServer.step] at hs
    split at hs
    · rename_i c buf hr
      split at hs
      · rename_i hnone
        cases hs
        refine h.reader (w := w) (r := .reading c) (m := []) (q := [])
          (by rw [hr]; rfl) rfl rfl (List.append_nil _).symm (List.append_nil _).symm rfl
          (by simp) (by simp) ?_
        rw [hr]
        simp [pending, handleRequest_eq_none hnone]
      · rename_i func ptr hsome
        obtain ⟨rfl, rfl, hfunc⟩ := handleRequest_eq_some hsome
        cases hs
        rw [hinv.opened]
        refine h.reader (w := w) (r := .pushing ⟨c, methodOf buf, buf⟩) (m := []) (q := [])
          (by rw [hr]; rfl) rfl rfl (List.append_nil _).symm (List.append_nil _).symm rfl
          (by simp) (by simp) ?_
        rw [hr]
        simp [pending, hfunc]
    · cases hs
  | push w =>
    simp only [RequestServer.step] at hs
    split at hs
    · rename_i t hr
      cases hs
      refine h.reader (w := w) (r := .notifying t.handle) (m := []) (q := [t.frame])
        (by rw [hr]; rfl) rfl rfl (List.append_nil _).symm ?_ rfl (by simp)
        (by simp [WorkerCaller.frame]) ?_
      · show (inQueue _ _).map WorkerCaller.frame = _
        rw [inQueue_appendTask, List.map_append]
        rfl
      · rw [hr, WorkerCaller.frame, pairsIn_singleton, if_pos rfl]
        rfl
    · cases hs
  | notify w =>
    simp only [RequestServer.step] at hs
    split at hs
    · rename_i c hr
      cases hs
      refine h.reader (w := w) (r := .reading c) (m := []) (q := [])
        (by rw [hr]; rfl) rfl rfl (List.append_nil _).symm (List.append_nil _).symm rfl
        (by simp) (by simp) ?_
      rw [hr]
      rfl
    · cases hs
  | readEnd w =>
    simp only [RequestServer.step] at hs
    split at hs
    · rename_i c hr
      cases hs
      have hw : connection (s.readers w) = some c := by rw [hr]; rfl
      constructor
      · apply exclusive_update h.exclusive
        intro c' hc'
        cases hc'
      · intro c'
        obtain ⟨rest, hat, hline⟩ := h.inLine c'
        by_cases hc : c' = c
        · subst hc
          have hrest := hat.there w hw
          rw [hr] at hrest
          rw [← hrest] at hline
          exact ⟨[], atReader_leave h.exclusive hw rfl, hline⟩
        · refine ⟨rest, hat.other (by rw [hw]; simpa using Ne.symm hc) ?_, hline⟩
          simp [connection]
    · cases hs
  | work u => exact h.work hagree hinv hs

end Steps

/-- Nothing is in the queue, or at the reader, of an idle server. -/
theorem OrderInv.eq_of_idle (h : s.OrderInv rpcFuncs) (hidle : s.Idle) (c : ι) :
    pairsIn c s.responses = answerable rpcFuncs c s := by
  obtain ⟨rest, hat, hline⟩ := h.inLine c
  have hrest : rest = [] := hat.nobody fun w => by
    rw [hidle.readers w]
    simp [connection]
  have hcurrent : (s.worker ()).current = [] := by
    obtain ⟨hassigned, hinTask⟩ := hidle.workers ()
    cases hv : s.worker () with
    | holding task =>
      rw [hv] at hassigned
      exact Multiset.coe_eq_zero _ |>.mp hassigned
    | executing task =>
      rw [hv] at hinTask
      exact Multiset.coe_eq_zero _ |>.mp hinTask
    | _ => rfl
  rw [hline, hrest, inQueue, hcurrent, hidle.queue]
  show _ = pairsIn c s.responses ++ [] ++ []
  rw [List.append_nil, List.append_nil]

/-- In every run with one pool worker in which the epoll workers keep apart and
each frame leaves room for its response, the responses on each connection are
those to the first of its requests that have a function, in their order, and to
all of these when the server is idle; and each response stays in its array. -/
theorem inOrder_of_reachable [Fintype ω] [DecidableEq ω] {defs : List (FuncDef × CppFunction)}
    (hagree : Agreeing defs)
    (h : ReachableIf (RequestServer.step (registered defs)) (InTurn defs) new s) :
    (∀ c, pairsIn c s.responses <+: answerable (registered defs) c s ∧
      (s.Idle → pairsIn c s.responses = answerable (registered defs) c s)) ∧
      s.InBounds (registered defs) := by
  have hinv : ∀ t : RequestServer ι ω Unit,
      ReachableIf (RequestServer.step (registered defs)) (InTurn defs) new t →
        t.Inv (registered defs) :=
    fun _ ht => ht.invariant inv_new fun _ _ _ hi _ hstep => hi.step hagree hstep
  have horder : s.OrderInv (registered defs) := by
    induction h with
    | init => exact orderInv_new
    | step hr ha hs ih => exact ih.step hagree (hinv _ hr) ha.1 hs
  refine ⟨fun c => ⟨?_, fun hidle => horder.eq_of_idle hidle c⟩,
    inBounds_of_fitting hagree (h.mono fun _ _ hok => hok.2)⟩
  obtain ⟨rest, -, hline⟩ := horder.inLine c
  rw [hline, List.append_assoc]
  exact List.prefix_append _ _

end AnyParser

/-- Three requests for `sub`, two of them on one connection, and the first two
responses. -/
theorem inOrder_of_reachable_two_connections :
    ∃ s : RequestServer (Fin 2) (Fin 2) Unit,
      (s.responses.map Prod.fst = [0, 1] ∧
        (answerable (registered [(subDef, sub)]) 0 s).length = 2) ∧
        (∀ c, pairsIn c s.responses <+: answerable (registered [(subDef, sub)]) c s ∧
          (s.Idle → pairsIn c s.responses = answerable (registered [(subDef, sub)]) c s)) ∧
        s.InBounds (registered [(subDef, sub)]) := by
  obtain ⟨s, hs, hP⟩ : ∃ s : RequestServer (Fin 2) (Fin 2) Unit,
      ReachableIf (RequestServer.step (registered [(subDef, sub)])) (InTurn [(subDef, sub)]) new s ∧
        s.responses.map Prod.fst = [0, 1] ∧
        (answerable (registered [(subDef, sub)]) 0 s).length = 2 :=
    exists_reachable_of_run
      [.readStart 0 0, .readPackage 0 [10, 3, 115, 117, 98, 16, 1, 24, 5], .readStart 1 1,
        .readPackage 1 [10, 3, 115, 117, 98, 16, 1, 24, 172, 2, 32, 1], .handleRequest 0, .push 0,
        .notify 0, .readPackage 0 [10, 3, 115, 117, 98, 16, 2, 24, 7], .handleRequest 1, .push 1,
        .handleRequest 0, .push 0, .notify 1, .notify 0, .readEnd 0, .work (), .work (), .work (),
        .work (), .work (), .work (), .work (), .work ()]
      (by decide +kernel)
  exact ⟨s, hP, inOrder_of_reachable (agreeing_merge _) hs⟩

end RequestServer

end CppRpc
