import CppRpc.Server.ResponseFits
import CppRpc.Util.PoolDrain

/-!
# One response for each request

The requests of all connections on their way through the server.  The epoll
workers `ω` are in `read_socket`: `read_package` answers a frame, any frame
whatever, and `handle_request` appends a task to the pool or finds no function.
The pool workers `υ` are in `do_work`, as `Worker.step` has it; a task is a call
of `worker_caller`, which passes the response to `write_package`.  The histories
are the frames that `read_package` returned and the responses, each with its
connection, and the requests without a function.  A response that is longer than
the array of its request is no step: the source writes behind the array.

`Correlated` is the property: the responses on a connection are for requests of
this connection, each for another one, and all requests with a function are
answered once nothing is under way.  The accounting is by multisets of frames:
`pooled_step` says that a pool neither loses a task nor makes one, and
`pairOf_workerCaller` that a response has the method and the number of its
request.  The parser is any one that reads the method and the number alike in the
template and in the message of a function, whatever the frame.
-/

namespace CppRpc

open Proto3 Runs

/-! ## The tasks of a pool -/

section Pooled

variable {υ τ : Type} [Fintype υ]

/-- The tasks in the queue and those at the workers. -/
def pooled (p : ThreadPool τ) (worker : υ → Worker τ) : Multiset τ :=
  p.tasks.reduceOption + (total Worker.assigned worker + total Worker.inTask worker)

/-- A step of a worker takes those tasks out that it ends. -/
theorem pooled_step [DecidableEq υ] {p p' : ThreadPool τ} {worker : υ → Worker τ} {u : υ}
    {w : Worker τ} (h : (worker u).step p = some (w, p')) :
    pooled p' (Function.update worker u w) + ((worker u).ends : Multiset τ) = pooled p worker := by
  have hmove := Worker.move_of_step h
  have hassigned := @total_update_add _ _ _ _ _ _ _ worker _ _ _ _ hmove.assigned_add
  have hinTask := @total_update_add _ _ _ _ _ _ _ worker _ _ _ _ hmove.inTask_add
  unfold pooled
  rw [hmove.tasks_eq, ← Multiset.coe_add, add_assoc, add_assoc, hinTask]
  calc (p'.tasks.reduceOption : Multiset τ) +
        (total Worker.assigned (Function.update worker u w) +
          (total Worker.inTask worker + ((worker u).begins : Multiset τ)))
      = p'.tasks.reduceOption + (total Worker.assigned (Function.update worker u w) +
          ((worker u).begins : Multiset τ) + total Worker.inTask worker) := by abel
    _ = _ := by
      rw [hassigned]
      abel

end Pooled

/-! ## The server -/

/-- A frame and the connection it is on. -/
abbrev OnConnection (ι : Type) := ι × List UInt8

/-- A `worker_caller` bound to its arguments. -/
structure WorkerCaller (ι : Type) where
  handle : ι
  func : Value
  ptr : List UInt8

/-- The request of a task. -/
def WorkerCaller.frame {ι : Type} (t : WorkerCaller ι) : OnConnection ι := (t.handle, t.ptr)

/-- Where an epoll worker stands in `read_socket`. -/
inductive RequestReader (ι : Type)
  | outside
  /-- Before `read_package`, or behind the loop. -/
  | reading (c : ι)
  /-- In `handle_request`, before the template is parsed. -/
  | handling (c : ι) (buf : List UInt8)
  /-- In `append_task`, before the queue. -/
  | pushing (task : WorkerCaller ι)
  /-- In `append_task`, before `notify_all`. -/
  | notifying (c : ι)

namespace RequestReader

variable {ι : Type}

/-- The frame that nothing is known of yet. -/
def frame : RequestReader ι → Multiset (OnConnection ι)
  | .handling c buf => {(c, buf)}
  | _ => 0

/-- The task on its way to the queue. -/
def task : RequestReader ι → Multiset (WorkerCaller ι)
  | .pushing task => {task}
  | _ => 0

end RequestReader

structure RequestServer (ι ω υ : Type) where
  pool : ThreadPool (WorkerCaller ι)
  worker : υ → Worker (WorkerCaller ι)
  readers : ω → RequestReader ι
  received : List (OnConnection ι)
  unhandled : List (OnConnection ι)
  responses : List (OnConnection ι)

namespace RequestServer

variable {ι ω υ : Type}

inductive Action (ι ω υ : Type)
  | readStart (w : ω) (c : ι)
  /-- `read_package` returns true. -/
  | readPackage (w : ω) (buf : List UInt8)
  /-- `handle_request` up to the test of `m_exit` in `append_task`. -/
  | handleRequest (w : ω)
  | push (w : ω)
  | notify (w : ω)
  | readEnd (w : ω)
  | work (u : υ)

def new : RequestServer ι ω υ := ⟨.new, fun _ => .starting, fun _ => .outside, [], [], []⟩

/-- What the next step of a worker passes to `write_package`. -/
def respondTo (rpcFuncs : RpcFuncMap) :
    Worker (WorkerCaller ι) → Option (List (OnConnection ι))
  | .executing (some t) => (workerCaller rpcFuncs t.func t.ptr).map fun out => [(t.handle, out)]
  | _ => some []

/-- One step.  `rpcFuncs` are the registered functions. -/
def step [Parser] [DecidableEq ω] [DecidableEq υ] (rpcFuncs : RpcFuncMap)
    (s : RequestServer ι ω υ) : Action ι ω υ → Option (RequestServer ι ω υ)
  | .readStart w c =>
      match s.readers w with
      | .outside => some { s with readers := Function.update s.readers w (.reading c) }
      | _ => none
  | .readPackage w buf =>
      match s.readers w with
      | .reading c => some { s with
          readers := Function.update s.readers w (.handling c buf)
          received := s.received ++ [(c, buf)] }
      | _ => none
  | .handleRequest w =>
      match s.readers w with
      | .handling c buf =>
          match CppRpc.handleRequest rpcFuncs buf with
          | none => some { s with
              readers := Function.update s.readers w (.reading c)
              unhandled := s.unhandled ++ [(c, buf)] }
          | some (func, ptr) => some { s with
              readers := Function.update s.readers w
                (if s.pool.exit then .reading c else .pushing ⟨c, func, ptr⟩) }
      | _ => none
  | .push w =>
      match s.readers w with
      | .pushing task => some { s with
          pool := { s.pool with tasks := s.pool.tasks.appendTask (some task) }
          readers := Function.update s.readers w (.notifying task.handle) }
      | _ => none
  | .notify w =>
      match s.readers w with
      | .notifying c => some { s with
          pool := { s.pool with condition := s.pool.condition.notify 1 }
          readers := Function.update s.readers w (.reading c) }
      | _ => none
  | .readEnd w =>
      match s.readers w with
      | .reading _ => some { s with readers := Function.update s.readers w .outside }
      | _ => none
  | .work u =>
      (respondTo rpcFuncs (s.worker u)).bind fun out =>
        ((s.worker u).step s.pool).map fun r => { s with
          pool := r.2
          worker := Function.update s.worker u r.1
          responses := s.responses ++ out }

/-! ## The property -/

section Property

variable [Parser]

/-- The method and the number of a frame. -/
def pairOf (buf : List UInt8) : Value × Value := (methodOf buf, queryIdOf buf)

/-- The pairs of the frames on one connection. -/
def pairsOn [DecidableEq ι] (c : ι) (frames : Multiset (OnConnection ι)) :
    Multiset (Value × Value) :=
  (frames.filter (·.1 = c)).map fun x => pairOf x.2

/-- The queue is empty, no worker is executing a task, from `take_task` on, and
no `read_socket` is in progress. -/
structure Idle (s : RequestServer ι ω υ) : Prop where
  queue : s.pool.tasks = []
  workers : ∀ u, (s.worker u).assigned = 0 ∧ (s.worker u).inTask = 0
  readers : ∀ w, s.readers w = .outside

/-- The property. -/
structure Correlated [DecidableEq ι] (rpcFuncs : RpcFuncMap) (s : RequestServer ι ω υ) : Prop where
  contained : ∀ c : ι, pairsOn c s.responses ≤ pairsOn c s.received
  complete : s.Idle → ∀ c : ι, pairsOn c s.responses =
    Multiset.filter (fun pair => (rpcFuncs pair.1).isSome) (pairsOn c s.received)

end Property

section Pairs

variable [Parser] [DecidableEq ι]

theorem pairsOn_add (c : ι) (frames frames' : Multiset (OnConnection ι)) :
    pairsOn c (frames + frames') = pairsOn c frames + pairsOn c frames' := by
  rw [pairsOn, Multiset.filter_add, Multiset.map_add]
  rfl

theorem pairsOn_append (c : ι) (frames frames' : List (OnConnection ι)) :
    pairsOn c ((frames ++ frames' : List (OnConnection ι)) : Multiset (OnConnection ι)) =
      pairsOn c frames + pairsOn c frames' := by
  rw [← Multiset.coe_add, pairsOn_add]

theorem pairsOn_singleton (c handle : ι) {buf buf' : List UInt8} (h : pairOf buf = pairOf buf') :
    pairsOn c {(handle, buf)} = pairsOn c {(handle, buf')} := by
  unfold pairsOn
  rw [Multiset.filter_singleton, Multiset.filter_singleton]
  split
  · rw [Multiset.map_singleton, Multiset.map_singleton, h]
  · rfl

theorem filter_pairsOn {c : ι} {frames : Multiset (OnConnection ι)} {P : Value × Value → Prop}
    [DecidablePred P] (h : ∀ x ∈ frames, P (pairOf x.2)) :
    (pairsOn c frames).filter P = pairsOn c frames := by
  rw [Multiset.filter_eq_self]
  intro pair hpair
  obtain ⟨x, hx, rfl⟩ := Multiset.mem_map.mp hpair
  exact h x (Multiset.mem_filter.mp hx).1

theorem filter_pairsOn_of_not {c : ι} {frames : Multiset (OnConnection ι)}
    {P : Value × Value → Prop} [DecidablePred P] (h : ∀ x ∈ frames, ¬ P (pairOf x.2)) :
    (pairsOn c frames).filter P = 0 := by
  rw [Multiset.filter_eq_nil]
  intro pair hpair
  obtain ⟨x, hx, rfl⟩ := Multiset.mem_map.mp hpair
  exact h x (Multiset.mem_filter.mp hx).1

end Pairs

/-! ## One response -/

section Response

variable [Parser]

/-- The response to a task has the method and the number of its request. -/
theorem pairOf_workerCaller {defs : List (FuncDef × CppFunction)} (hagree : Agreeing defs)
    {func : Value} {ptr out : List UInt8}
    (hbound : CppRpc.handleRequest (registered defs) ptr = some (func, ptr))
    (h : workerCaller (registered defs) func ptr = some out) : pairOf out = pairOf ptr := by
  obtain ⟨rfl, -, -⟩ := handleRequest_eq_some hbound
  obtain ⟨rpc, hrpc, rfl, -⟩ := workerCaller_eq_some.mp h
  obtain ⟨e, hmem, he⟩ := exists_of_registered hrpc
  obtain ⟨Request, t, hRequest, -, hliteral, -, -, rfl⟩ := exists_of_regisHelper he
  rw [rpcServer_eq (hagree e hmem Request hRequest), if_pos rfl]
  obtain ⟨hmethod, hqueryId⟩ := pair_respond (type_methodOf ptr) (type_queryIdOf ptr)
    (fun bs hbs => isUtf8_of_literal (hbs ▸ hliteral)) t
    (e.2.body (rpcArguments Request e.2 (e.1.funcArgs.map Arg.name) ptr))
  rw [pairOf, pairOf, hmethod, hqueryId]

/-- What a worker passes to `write_package` stands for the tasks that it ends. -/
theorem respondTo_spec [DecidableEq ι] {defs : List (FuncDef × CppFunction)}
    (hagree : Agreeing defs) {v : Worker (WorkerCaller ι)} {out : List (OnConnection ι)}
    (h : respondTo (registered defs) v = some out)
    (hbound : ∀ t ∈ v.ends, CppRpc.handleRequest (registered defs) t.ptr = some (t.func, t.ptr)) :
    (∀ c, pairsOn c out = pairsOn c ((v.ends : Multiset (WorkerCaller ι)).map WorkerCaller.frame)) ∧
      ∀ x ∈ out, (registered defs (methodOf x.2)).isSome := by
  unfold respondTo at h
  split at h
  · rename_i t
    obtain ⟨o, ho, rfl⟩ := Option.map_eq_some_iff.mp h
    have ht := hbound t (List.mem_singleton.mpr rfl)
    have hpair := pairOf_workerCaller hagree ht ho
    constructor
    · exact fun c => pairsOn_singleton c t.handle hpair
    · intro x hx
      rw [List.mem_singleton.mp hx, (Prod.mk.inj hpair).1]
      exact (handleRequest_eq_some ht).2.2
  · rename_i hv
    cases h
    have hends : v.ends = [] := by
      unfold Worker.ends
      split
      · rename_i task
        cases task with
        | none => rfl
        | some t => exact absurd rfl (hv t)
      · rfl
    exact ⟨fun c => by rw [hends]; rfl, nofun⟩

end Response

/-! ## The invariant -/

section Inv

variable [Parser] [DecidableEq ι] [Fintype ω] [Fintype υ]

/-- The tasks on their way to a response. -/
def tasks (s : RequestServer ι ω υ) : Multiset (WorkerCaller ι) :=
  total RequestReader.task s.readers + pooled s.pool s.worker

/-- The invariant. -/
structure Inv (rpcFuncs : RpcFuncMap) (s : RequestServer ι ω υ) : Prop where
  opened : s.pool.exit = false
  /-- Every frame is in one place. -/
  accounted : ∀ c, pairsOn c s.received = pairsOn c (total RequestReader.frame s.readers) +
    pairsOn c s.unhandled + pairsOn c (s.tasks.map WorkerCaller.frame) + pairsOn c s.responses
  bound : ∀ t ∈ s.tasks, CppRpc.handleRequest rpcFuncs t.ptr = some (t.func, t.ptr)
  unhandled : ∀ x ∈ s.unhandled, rpcFuncs (methodOf x.2) = none
  answered : ∀ x ∈ s.responses, (rpcFuncs (methodOf x.2)).isSome

variable {rpcFuncs : RpcFuncMap} {s : RequestServer ι ω υ}

theorem inv_new : (new : RequestServer ι ω υ).Inv rpcFuncs := by
  have htasks : (new : RequestServer ι ω υ).tasks = 0 := by
    have htask : total RequestReader.task (new : RequestServer ι ω υ).readers = 0 :=
      total_eq_zero fun _ => rfl
    have hassigned : total Worker.assigned (new : RequestServer ι ω υ).worker = 0 :=
      total_eq_zero fun _ => rfl
    have hinTask : total Worker.inTask (new : RequestServer ι ω υ).worker = 0 :=
      total_eq_zero fun _ => rfl
    rw [tasks, pooled, htask, hassigned, hinTask]
    rfl
  have hframes : total RequestReader.frame (new : RequestServer ι ω υ).readers = 0 :=
    total_eq_zero fun _ => rfl
  refine ⟨rfl, fun c => ?_, fun t ht => ?_, fun x hx => absurd hx List.not_mem_nil,
    fun x hx => absurd hx List.not_mem_nil⟩
  · rw [htasks, hframes]
    rfl
  · rw [htasks] at ht
    exact absurd ht (Multiset.notMem_zero t)

theorem Inv.correlated (h : s.Inv rpcFuncs) : s.Correlated rpcFuncs := by
  refine ⟨fun c => ?_, fun hidle c => ?_⟩
  · rw [h.accounted c]
    exact Multiset.le_add_left _ _
  · have hframes : total RequestReader.frame s.readers = 0 :=
      total_eq_zero fun w => by rw [hidle.readers w]; rfl
    have htasks : s.tasks = 0 := by
      rw [tasks, pooled, hidle.queue, total_eq_zero fun u => (hidle.workers u).1,
        total_eq_zero fun u => (hidle.workers u).2,
        total_eq_zero fun w => by rw [hidle.readers w]; rfl]
      rfl
    have hunhandled : (pairsOn c s.unhandled).filter (fun pair => (rpcFuncs pair.1).isSome) = 0 :=
      filter_pairsOn_of_not fun x hx => by simp [pairOf, h.unhandled x hx]
    have hresponses : (pairsOn c s.responses).filter (fun pair => (rpcFuncs pair.1).isSome) =
        pairsOn c s.responses := filter_pairsOn h.answered
    rw [h.accounted c, hframes, htasks, Multiset.filter_add, Multiset.filter_add,
      Multiset.filter_add, hunhandled, hresponses]
    simp [pairsOn]

theorem Inv.bound_of_eq (h : s.Inv rpcFuncs) {ts : Multiset (WorkerCaller ι)} (hts : ts = s.tasks) :
    ∀ t ∈ ts, CppRpc.handleRequest rpcFuncs t.ptr = some (t.func, t.ptr) :=
  hts ▸ h.bound

/-! ## The steps -/

variable [DecidableEq ω] {w : ω} {r : RequestReader ι}

omit [Parser] [DecidableEq ι] in
/-- An epoll worker goes on, with another task. -/
theorem tasks_update {x y : Multiset (WorkerCaller ι)} (h : r.task + x = (s.readers w).task + y) :
    total RequestReader.task (Function.update s.readers w r) + pooled s.pool s.worker + x =
      s.tasks + y := by
  rw [tasks, add_right_comm, total_update_add h, add_right_comm]

theorem Inv.goto (h : s.Inv rpcFuncs) (hframe : r.frame = (s.readers w).frame)
    (htask : r.task = (s.readers w).task) (condition : Condition) :
    ({ s with
      pool := { s.pool with condition }
      readers := Function.update s.readers w r } : RequestServer ι ω υ).Inv rpcFuncs := by
  have hframes : total RequestReader.frame (Function.update s.readers w r) =
      total RequestReader.frame s.readers := by
    simpa using total_update_add (congrArg (· + 0) hframe)
  have htasks : total RequestReader.task (Function.update s.readers w r) +
      pooled s.pool s.worker = s.tasks := by
    simpa using tasks_update (congrArg (· + 0) htask)
  refine ⟨h.opened, fun c => ?_, h.bound_of_eq htasks, h.unhandled, h.answered⟩
  have hacc := h.accounted c
  rw [← hframes, ← htasks] at hacc
  exact hacc

theorem Inv.readPackage (h : s.Inv rpcFuncs) {c : ι} (hr : s.readers w = .reading c)
    (buf : List UInt8) :
    ({ s with
      readers := Function.update s.readers w (.handling c buf)
      received := s.received ++ [(c, buf)] } : RequestServer ι ω υ).Inv rpcFuncs := by
  have hframes : total RequestReader.frame (Function.update s.readers w (.handling c buf)) + 0 =
      total RequestReader.frame s.readers + ([(c, buf)] : List (OnConnection ι)) := by
    apply total_update_add
    rw [hr]
    exact add_comm _ _
  have htasks : total RequestReader.task (Function.update s.readers w (.handling c buf)) +
      pooled s.pool s.worker + 0 = s.tasks + 0 := by
    apply tasks_update
    rw [hr]
    rfl
  rw [add_zero] at hframes
  rw [add_zero, add_zero] at htasks
  refine ⟨h.opened, fun c' => ?_, h.bound_of_eq htasks, h.unhandled, h.answered⟩
  dsimp only [tasks]
  rw [hframes, htasks, pairsOn_append, pairsOn_add, h.accounted c']
  abel

theorem Inv.unhandle (h : s.Inv rpcFuncs) {c : ι} {buf : List UInt8}
    (hr : s.readers w = .handling c buf) (hnone : rpcFuncs (methodOf buf) = none) :
    ({ s with
      readers := Function.update s.readers w (.reading c)
      unhandled := s.unhandled ++ [(c, buf)] } : RequestServer ι ω υ).Inv rpcFuncs := by
  have hframes : total RequestReader.frame (Function.update s.readers w (.reading c)) +
      ([(c, buf)] : List (OnConnection ι)) = total RequestReader.frame s.readers + 0 := by
    apply total_update_add
    rw [hr]
    exact add_comm _ _
  have htasks : total RequestReader.task (Function.update s.readers w (.reading c)) +
      pooled s.pool s.worker + 0 = s.tasks + 0 := by
    apply tasks_update
    rw [hr]
    rfl
  rw [add_zero] at hframes
  rw [add_zero, add_zero] at htasks
  refine ⟨h.opened, fun c' => ?_, h.bound_of_eq htasks, fun x hx => ?_, h.answered⟩
  · dsimp only [tasks]
    rw [htasks, pairsOn_append, h.accounted c', ← hframes, pairsOn_add]
    abel
  · rcases List.mem_append.mp hx with hx | hx
    · exact h.unhandled x hx
    · rw [List.mem_singleton.mp hx]
      exact hnone

theorem Inv.bind (h : s.Inv rpcFuncs) {c : ι} {buf ptr : List UInt8} {func : Value}
    (hr : s.readers w = .handling c buf)
    (hsome : CppRpc.handleRequest rpcFuncs buf = some (func, ptr)) :
    ({ s with readers := Function.update s.readers w (.pushing ⟨c, func, ptr⟩) } :
      RequestServer ι ω υ).Inv rpcFuncs := by
  obtain ⟨-, rfl, -⟩ := handleRequest_eq_some hsome
  have hframes : total RequestReader.frame (Function.update s.readers w
      (.pushing ⟨c, func, buf⟩)) + {(c, buf)} = total RequestReader.frame s.readers + 0 := by
    apply total_update_add
    rw [hr]
    exact add_comm _ _
  have htasks : total RequestReader.task (Function.update s.readers w
      (.pushing ⟨c, func, buf⟩)) + pooled s.pool s.worker + 0 = s.tasks + {⟨c, func, buf⟩} := by
    apply tasks_update
    rw [hr]
    exact add_comm _ _
  rw [add_zero] at hframes htasks
  refine ⟨h.opened, fun c' => ?_, ?_, h.unhandled, h.answered⟩
  · dsimp only [tasks]
    rw [htasks, h.accounted c', ← hframes, pairsOn_add, Multiset.map_add, pairsOn_add,
      Multiset.map_singleton, WorkerCaller.frame]
    abel
  · dsimp only [tasks]
    rw [htasks]
    intro t ht
    rcases Multiset.mem_add.mp ht with ht | ht
    · exact h.bound t ht
    · rw [Multiset.mem_singleton.mp ht]
      exact hsome

theorem Inv.push (h : s.Inv rpcFuncs) {t : WorkerCaller ι} (hr : s.readers w = .pushing t) :
    ({ s with
      pool := { s.pool with tasks := s.pool.tasks.appendTask (some t) }
      readers := Function.update s.readers w (.notifying t.handle) } :
      RequestServer ι ω υ).Inv rpcFuncs := by
  have hframes : total RequestReader.frame (Function.update s.readers w (.notifying t.handle)) + 0 =
      total RequestReader.frame s.readers + 0 := by
    apply total_update_add
    rw [hr]
    rfl
  have htasks : total RequestReader.task (Function.update s.readers w (.notifying t.handle)) +
      pooled s.pool s.worker + {t} = s.tasks + 0 := by
    apply tasks_update
    rw [hr]
    exact add_comm _ _
  have hpooled : pooled { s.pool with tasks := s.pool.tasks.appendTask (some t) } s.worker =
      pooled s.pool s.worker + {t} := by
    simp only [pooled, TaskQueue.appendTask, List.reduceOption_append, ← Multiset.coe_add]
    exact add_right_comm _ _ _
  rw [add_zero, add_zero] at hframes
  rw [add_zero, add_assoc, ← hpooled] at htasks
  refine ⟨h.opened, fun c => ?_, h.bound_of_eq htasks, h.unhandled, h.answered⟩
  dsimp only [tasks]
  rw [hframes, htasks]
  exact h.accounted c

theorem Inv.work [DecidableEq υ] {defs : List (FuncDef × CppFunction)} (hagree : Agreeing defs)
    (h : s.Inv (registered defs)) {u : υ} {s' : RequestServer ι ω υ}
    (hs : s.step (registered defs) (.work u) = some s') : s'.Inv (registered defs) := by
  obtain ⟨out, hout, hs⟩ := Option.bind_eq_some_iff.mp hs
  obtain ⟨⟨v, p⟩, hstep, rfl⟩ := Option.map_eq_some_iff.mp hs
  have hexit := (Worker.move_of_step hstep).exit_eq
  have hpooled := pooled_step hstep
  have htasks : total RequestReader.task s.readers + pooled p (Function.update s.worker u v) +
      ((s.worker u).ends : Multiset (WorkerCaller ι)) = s.tasks := by
    rw [add_assoc, hpooled, tasks]
  have hbound : ∀ t ∈ (s.worker u).ends,
      CppRpc.handleRequest (registered defs) t.ptr = some (t.func, t.ptr) := by
    intro t ht
    apply h.bound t
    rw [← htasks]
    exact Multiset.mem_add.mpr (Or.inr ht)
  obtain ⟨hpairs, hanswered⟩ := respondTo_spec hagree hout hbound
  refine ⟨hexit.trans h.opened, fun c => ?_, fun t ht => h.bound t ?_, h.unhandled, fun x hx => ?_⟩
  · have hacc := h.accounted c
    rw [← htasks, Multiset.map_add, pairsOn_add, ← hpairs] at hacc
    dsimp only [tasks]
    rw [hacc, pairsOn_append]
    abel
  · rw [← htasks]
    exact Multiset.mem_add.mpr (Or.inl ht)
  · rcases List.mem_append.mp hx with hx | hx
    · exact h.answered x hx
    · exact hanswered x hx

theorem Inv.step [DecidableEq υ] {defs : List (FuncDef × CppFunction)} (hagree : Agreeing defs)
    (h : s.Inv (registered defs)) {a : Action ι ω υ} {s' : RequestServer ι ω υ}
    (hs : s.step (registered defs) a = some s') : s'.Inv (registered defs) := by
  cases a with
  | readStart w c =>
    simp only [RequestServer.step] at hs
    split at hs
    · rename_i hr
      cases hs
      exact h.goto (r := .reading c) (by rw [hr]; rfl) (by rw [hr]; rfl) s.pool.condition
    · cases hs
  | readPackage w buf =>
    simp only [RequestServer.step] at hs
    split at hs
    · rename_i c hr
      cases hs
      exact h.readPackage hr buf
    · cases hs
  | handleRequest w =>
    simp only [RequestServer.step] at hs
    split at hs
    · rename_i c buf hr
      split at hs
      · rename_i hnone
        cases hs
        exact h.unhandle hr (handleRequest_eq_none hnone)
      · rename_i func ptr hsome
        cases hs
        rw [h.opened]
        exact h.bind hr hsome
    · cases hs
  | push w =>
    simp only [RequestServer.step] at hs
    split at hs
    · rename_i t hr
      cases hs
      exact h.push hr
    · cases hs
  | notify w =>
    simp only [RequestServer.step] at hs
    split at hs
    · rename_i c hr
      cases hs
      exact h.goto (r := .reading c) (by rw [hr]; rfl) (by rw [hr]; rfl) _
    · cases hs
  | readEnd w =>
    simp only [RequestServer.step] at hs
    split at hs
    · rename_i c hr
      cases hs
      exact h.goto (r := .outside) (by rw [hr]; rfl) (by rw [hr]; rfl) s.pool.condition
    · cases hs
  | work u => exact h.work hagree hs

end Inv

end RequestServer

end CppRpc
