import Mathlib.Logic.Function.Basic
import CppRpc.Lib.Runs

/-!
# Tasks and the objects they refer to

The connections of the server, its epoll workers, and the worker pool.
`RequestHandle::handle_request` binds `worker_caller` to a raw `this` and
appends the task to the pool.  The object belongs to the `ptr` of
`new_connection` until `set_delete_handle`, then to its own `m_self`, which
`close_connection` drops when a worker reads the end of the file.

`TasksAlive` is the property: the object of every task in the queue, or with a
worker, is not released.  Nothing keeps `close_connection` from dropping
`m_self` while a task is around.  `ReleasesIdle` excludes this, and a release
while another worker is still in `read_socket` of the connection.
`tasksAlive_of_releasesIdle` is the result, and `task_outlives_connection` a
run that closes a connection whose request is still in the queue.
-/

namespace CppRpc

open Runs

/-- What the life of a `RequestHandle` depends on. -/
structure Connection where
  constructed : Bool
  /-- The callbacks are in the map of the `IoService`. -/
  registered : Bool
  /-- `ptr` in `new_connection` owns the object. -/
  ptr : Bool
  /-- `m_self` owns the object. -/
  self : Bool

/-- The last owner is gone. -/
def Connection.Released (c : Connection) : Prop :=
  c.constructed = true ∧ c.ptr = false ∧ c.self = false

instance : DecidablePred Connection.Released := fun _ => inferInstanceAs (Decidable (_ ∧ _))

/-- A `worker_caller` bound to its arguments. -/
structure Task (ι : Type) where
  handle : ι
  func : String
  buf : List UInt8

/-- Where an epoll worker stands. -/
inductive ReadSocket (ι : Type)
  | outside
  | reading (c : ι)
  /-- Behind `close_connection`. -/
  | closed (c : ι)
  deriving DecidableEq

/-- Connections `ι`, epoll workers `ω` and pool workers `υ`. -/
structure Server (ι ω υ : Type) where
  connections : ι → Connection
  readers : ω → ReadSocket ι
  queue : List (Task ι)
  workers : υ → Option (Task ι)

namespace Server

variable {ι ω υ : Type}

inductive Action (ι ω υ : Type)
  /-- The constructor, whose `register_io` succeeds or fails. -/
  | construct (c : ι) (registers : Bool)
  | setDeleteHandle (c : ι)
  | readStart (w : ω) (c : ι)
  | handleRequest (w : ω) (func : String) (buf : List UInt8)
  /-- `close_connection`: `unregister_io`, and `copy.swap(m_self)`. -/
  | close (w : ω)
  | readEnd (w : ω)
  | takeTask (v : υ)
  | finishTask (v : υ)

def new : Server ι ω υ :=
  ⟨fun _ => ⟨false, false, false, false⟩, fun _ => .outside, [], fun _ => none⟩

def setConnection [DecidableEq ι] (s : Server ι ω υ) (c : ι) (x : Connection) : Server ι ω υ :=
  { s with connections := Function.update s.connections c x }

def setReader [DecidableEq ω] (s : Server ι ω υ) (w : ω) (r : ReadSocket ι) : Server ι ω υ :=
  { s with readers := Function.update s.readers w r }

/-- One step.  `rpcFuncs` are the registered functions. -/
def step [DecidableEq ι] [DecidableEq ω] [DecidableEq υ] (rpcFuncs : List String)
    (s : Server ι ω υ) : Action ι ω υ → Option (Server ι ω υ)
  | .construct c registers =>
      if (s.connections c).constructed then none
      else some (s.setConnection c ⟨true, registers, true, false⟩)
  | .setDeleteHandle c =>
      if (s.connections c).ptr then
        some (s.setConnection c { s.connections c with ptr := false, self := true })
      else none
  | .readStart w c =>
      if s.readers w = .outside ∧ (s.connections c).registered then
        some (s.setReader w (.reading c))
      else none
  | .handleRequest w func buf =>
      match s.readers w with
      | .reading c =>
          if func ∈ rpcFuncs then some { s with queue := s.queue ++ [⟨c, func, buf⟩] } else some s
      | _ => none
  | .close w =>
      match s.readers w with
      | .reading c =>
          let x := { s.connections c with registered := false, self := false }
          some ((s.setConnection c x).setReader w (.closed c))
      | _ => none
  | .readEnd w =>
      match s.readers w with
      | .reading _ | .closed _ => some (s.setReader w .outside)
      | _ => none
  | .takeTask v =>
      match s.workers v, s.queue with
      | none, t :: queue => some { s with
          queue, workers := Function.update s.workers v (some t) }
      | _, _ => none
  | .finishTask v =>
      match s.workers v with
      | some _ => some { s with workers := Function.update s.workers v none }
      | none => none

/-- The task is in the queue, or a worker executes it. -/
def Pending (s : Server ι ω υ) (t : Task ι) : Prop := t ∈ s.queue ∨ ∃ v, s.workers v = some t

theorem forall_pending (s : Server ι ω υ) (P : Task ι → Prop) :
    (∀ t, s.Pending t → P t) ↔ (∀ t ∈ s.queue, P t) ∧ ∀ v, ∀ t ∈ s.workers v, P t := by
  constructor
  · intro h
    exact ⟨fun t ht => h t (Or.inl ht), fun v t ht => h t (Or.inr ⟨v, ht⟩)⟩
  · rintro ⟨hqueue, hworkers⟩ t (ht | ⟨v, ht⟩)
    · exact hqueue t ht
    · exact hworkers v t ht

/-- The property. -/
def TasksAlive (s : Server ι ω υ) : Prop :=
  ∀ t, s.Pending t → ¬ (s.connections t.handle).Released

/-- The condition on the state before a step: when `close_connection` drops the
last owner, no task refers to the object, and no other worker reads from the
connection. -/
def ReleasesIdle (s : Server ι ω υ) : Action ι ω υ → Prop
  | .close w => ∀ c, s.readers w = .reading c → (s.connections c).ptr = false →
      (∀ t, s.Pending t → t.handle ≠ c) ∧ ∀ w', s.readers w' = .reading c → w' = w
  | _ => True

/-- Nothing will use the object of the connection any more. -/
structure Idle (s : Server ι ω υ) (c : ι) : Prop where
  unregistered : (s.connections c).registered = false
  unread : ∀ w, s.readers w ≠ .reading c
  no_task : ∀ t, s.Pending t → t.handle ≠ c

/-- The invariant. -/
def Inv (s : Server ι ω υ) : Prop := ∀ c, (s.connections c).Released → s.Idle c

variable {rpcFuncs : List String} {s s' : Server ι ω υ}

theorem inv_new : (new : Server ι ω υ).Inv := fun _ h => absurd h.1 Bool.false_ne_true

/-- A step that changes one connection.  When this releases it, nothing uses
the object. -/
theorem Inv.setConnection [DecidableEq ι] (h : s.Inv) {c : ι} {x : Connection}
    (hidle : x.Released → x.registered = false ∧ (∀ w, s.readers w ≠ .reading c) ∧
      ∀ t, s.Pending t → t.handle ≠ c) : (s.setConnection c x).Inv := by
  intro d hd
  by_cases hdc : d = c
  · subst hdc
    have hx : (s.setConnection d x).connections d = x := Function.update_self ..
    rw [hx] at hd
    obtain ⟨hregistered, hreaders, htasks⟩ := hidle hd
    exact ⟨by rw [hx]; exact hregistered, hreaders, htasks⟩
  · have hold : (s.setConnection c x).connections d = s.connections d :=
      Function.update_of_ne hdc ..
    rw [hold] at hd
    exact ⟨by rw [hold]; exact (h d hd).unregistered, (h d hd).unread, (h d hd).no_task⟩

/-- A step that leaves the connections alone.  Readers and tasks are old ones,
or those of a connection that is not released. -/
theorem Inv.use (h : s.Inv) (hconnections : s'.connections = s.connections)
    (hreaders : ∀ w c, s'.readers w = .reading c →
      s.readers w = .reading c ∨ ¬ (s.connections c).Released)
    (htasks : ∀ t, s'.Pending t → s.Pending t ∨ ¬ (s.connections t.handle).Released) :
    s'.Inv := by
  intro c hc
  rw [hconnections] at hc
  have hidle := h c hc
  refine ⟨by rw [hconnections]; exact hidle.unregistered, fun w hw => ?_, fun t ht htc => ?_⟩
  · rcases hreaders w c hw with hold | hlive
    · exact hidle.unread w hold
    · exact hlive hc
  · rcases htasks t ht with hold | hlive
    · exact hidle.no_task t hold htc
    · exact hlive (htc ▸ hc)

/-- A worker moves on, into `read_socket` of a connection at most when this is
not released. -/
theorem Inv.setReader [DecidableEq ω] (h : s.Inv) {w : ω} {r : ReadSocket ι}
    (hr : ∀ c, r = .reading c → ¬ (s.connections c).Released) : (s.setReader w r).Inv := by
  refine h.use rfl ?_ (fun t ht => Or.inl ht)
  refine (Function.forall_update_iff s.readers fun w' r' => ∀ c, r' = .reading c →
    s.readers w' = .reading c ∨ ¬ (s.connections c).Released).mpr ⟨?_, ?_⟩
  · exact fun c hc => Or.inr (hr c hc)
  · exact fun w' _ c hc => Or.inl hc

/-- A pool worker gets an old task, or none, and no task comes to the queue. -/
theorem Inv.setWorker [DecidableEq υ] (h : s.Inv) {v : υ} {queue : List (Task ι)}
    {task : Option (Task ι)} (hqueue : ∀ t ∈ queue, t ∈ s.queue) (htask : ∀ t ∈ task, t ∈ s.queue) :
    ({ s with queue, workers := Function.update s.workers v task } : Server ι ω υ).Inv := by
  refine h.use rfl (fun _ _ hw => Or.inl hw) (fun t ht => Or.inl ?_)
  rcases ht with ht | ht
  · exact Or.inl (hqueue t ht)
  · rcases (Function.exists_update_iff s.workers fun _ x => x = some t).mp ht with ht | ⟨v', -, ht⟩
    · exact Or.inl (htask t ht)
    · exact Or.inr ⟨v', ht⟩

/-- `close_connection` of an idle connection. -/
theorem Inv.close [DecidableEq ι] [DecidableEq ω] (h : s.Inv) {w : ω} {c : ι}
    (hw : s.readers w = .reading c) (hok : s.ReleasesIdle (.close w)) :
    ((s.setConnection c { s.connections c with registered := false, self := false }).setReader
      w (.closed c)).Inv := by
  have hleft : (s.setReader w (.closed c)).Inv := h.setReader fun d hd => by cases hd
  refine hleft.setConnection fun hreleased => ?_
  obtain ⟨htasks, hothers⟩ := hok c hw hreleased.2.1
  refine ⟨rfl, ?_, htasks⟩
  refine (Function.forall_update_iff s.readers fun _ r => r ≠ .reading c).mpr ⟨?_, ?_⟩
  · exact fun hr => by cases hr
  · exact fun w' hne hw' => hne (hothers w' hw')

variable [DecidableEq ι] [DecidableEq ω] [DecidableEq υ]

theorem Inv.step (h : s.Inv) {a : Action ι ω υ} (hok : s.ReleasesIdle a)
    (hs : s.step rpcFuncs a = some s') : s'.Inv := by
  cases a with
  | construct c registers =>
    simp only [Server.step] at hs
    split at hs
    · cases hs
    · cases hs
      exact h.setConnection fun hrel => absurd hrel.2.1.symm Bool.false_ne_true
  | setDeleteHandle c =>
    simp only [Server.step] at hs
    split at hs
    · cases hs
      exact h.setConnection fun hrel => absurd hrel.2.2.symm Bool.false_ne_true
    · cases hs
  | readStart w c =>
    simp only [Server.step] at hs
    split at hs
    · rename_i hc
      cases hs
      refine h.setReader fun d hd => ?_
      obtain rfl := ReadSocket.reading.inj hd
      intro hrel
      exact absurd ((h c hrel).unregistered.symm.trans hc.2) Bool.false_ne_true
    · cases hs
  | handleRequest w func buf =>
    simp only [Server.step] at hs
    split at hs
    · rename_i c hw
      split at hs
      · cases hs
        refine h.use rfl (fun _ _ hw' => Or.inl hw') (fun t ht => ?_)
        rcases ht with ht | ht
        · rcases List.mem_append.mp ht with ht | ht
          · exact Or.inl (Or.inl ht)
          · obtain rfl := List.mem_singleton.mp ht
            exact Or.inr fun hrel => (h c hrel).unread w hw
        · exact Or.inl (Or.inr ht)
      · cases hs
        exact h
    · cases hs
  | close w =>
    simp only [Server.step] at hs
    split at hs
    · rename_i c hw
      cases hs
      exact h.close hw hok
    · cases hs
  | readEnd w =>
    simp only [Server.step] at hs
    split at hs
    · cases hs
      exact h.setReader fun d hd => by cases hd
    · cases hs
      exact h.setReader fun d hd => by cases hd
    · cases hs
  | takeTask v =>
    simp only [Server.step] at hs
    split at hs
    · rename_i t queue hv hq
      cases hs
      refine h.setWorker (fun u hu => hq ▸ List.mem_cons_of_mem t hu) fun u hu => ?_
      cases hu
      exact hq ▸ List.mem_cons_self ..
    · cases hs
  | finishTask v =>
    simp only [Server.step] at hs
    split at hs
    · cases hs
      exact h.setWorker (fun u hu => hu) fun u hu => by cases hu
    · cases hs

/-- In every run that releases idle connections only, no task outlives its
object. -/
theorem tasksAlive_of_releasesIdle
    (h : ReachableIf (step rpcFuncs) ReleasesIdle new s) : s.TasksAlive := by
  have hinv : s.Inv := h.invariant inv_new fun _ _ _ hs hok hstep => hs.step hok hstep
  intro t ht hrel
  exact (hinv t.handle hrel).no_task t ht rfl

/-! ## Two runs -/

instance {n : Nat} (s : Server ι ω (Fin n)) (P : Task ι → Prop) [DecidablePred P] :
    Decidable (∀ t, s.Pending t → P t) :=
  decidable_of_iff _ (s.forall_pending P).symm

instance {n : Nat} : DecidablePred (@TasksAlive ι ω (Fin n)) :=
  fun s => inferInstanceAs (Decidable (∀ t, s.Pending t → ¬ (s.connections t.handle).Released))

instance {k m n : Nat} (s : Server (Fin k) (Fin m) (Fin n)) : DecidablePred s.ReleasesIdle
  | .close w => inferInstanceAs (Decidable (∀ c, s.readers w = .reading c → _))
  | .construct _ _ | .setDeleteHandle _ | .readStart _ _ | .handleRequest _ _ _ | .readEnd _
  | .takeTask _ | .finishTask _ => isTrue trivial

/-- A request is answered before its connection is closed. -/
theorem tasksAlive_of_releasesIdle_answered :
    ∃ s : Server (Fin 2) (Fin 2) (Fin 2), ((s.connections 0).Released ∧ s.queue.length = 1) ∧
      s.TasksAlive := by
  obtain ⟨s, hs, hP⟩ : ∃ s : Server (Fin 2) (Fin 2) (Fin 2),
      ReachableIf (step ["add"]) ReleasesIdle new s ∧
        ((s.connections 0).Released ∧ s.queue.length = 1) :=
    exists_reachable_of_run
      [.construct 0 true, .setDeleteHandle 0, .readStart 0 0, .handleRequest 0 "add" [1],
        .readEnd 0, .takeTask 1, .construct 1 true, .setDeleteHandle 1, .finishTask 1,
        .readStart 0 0, .readStart 1 1, .close 0, .handleRequest 1 "add" [2]]
      (by decide +kernel)
  exact ⟨s, hP, tasksAlive_of_releasesIdle hs⟩

/-- A request is still in the queue when its connection is closed. -/
theorem task_outlives_connection :
    ∃ s : Server (Fin 1) (Fin 1) (Fin 1), Reachable (step ["add"]) new s ∧ ¬ s.TasksAlive :=
  exists_reachable_of_run
    [.construct 0 true, .setDeleteHandle 0, .readStart 0 0, .handleRequest 0 "add" [1], .readEnd 0,
      .readStart 0 0, .close 0]
    (by decide +kernel)

end Server

end CppRpc
