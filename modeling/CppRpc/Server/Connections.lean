import Mathlib.Data.Fintype.Basic
import CppRpc.Lib.Runs

/-!
# `new_connection` and `close_connection`

The epoll workers of the server in `ServerService::new_connection` and in the
callbacks of the connections.  From the moment that the constructor of a
`RequestHandle` has registered the descriptor, another worker may read the end
of the file and close the connection, while the first one still has to call
`set_delete_handle` and to count the connection.  Where `register_io` fails, the
constructor itself closes the connection, and `new_connection` goes on.

A step is one call in these functions; each `++` and `--` is one step.  The
descriptors are one-shot, so no two workers are in the callbacks of one
connection at once.

`Released` is the property: once everybody has returned, a handle that owns
itself has an open and registered descriptor.  `set_delete_handle` does not look
whether the connection is closed by then.  `InstallsLive` excludes this,
`released_of_installsLive` is the result, and `handle_owns_itself_forever` a run
in which the end of the file comes too early.
-/

namespace CppRpc

open Runs

/-! ## The connections -/

/-- A `RequestHandle` with its descriptor. -/
structure HandleState where
  /-- `accept` has answered the descriptor. -/
  accepted : Bool
  fdOpen : Bool
  /-- The constructor has called `register_io`. -/
  constructed : Bool
  registered : Bool
  /-- `m_self` owns the handle. -/
  self : Bool
  deriving DecidableEq

/-- Where a thread stands in `RequestHandle::close_connection`. -/
inductive Closing
  /-- Before `unregister_io`. -/
  | unregistering
  /-- Before `--m_clients`. -/
  | uncounting
  /-- Before `remove_connections`. -/
  | removing
  /-- Before `copy.swap(m_self)`. -/
  | dropping
  /-- Before `close`. -/
  | closing
  deriving DecidableEq

/-- Where an epoll worker stands. -/
inductive ServiceWorker (ι : Type)
  | outside
  /-- In `new_connection`, before `accept`. -/
  | accepting
  /-- Before the test of `m_clients`. -/
  | checking (c : ι)
  /-- Before the `close` of a rejected connection. -/
  | rejecting (c : ι)
  /-- In the constructor, before `register_io`. -/
  | constructing (c : ι)
  /-- In the `close_connection` of the constructor. -/
  | failing (c : ι) (i : Closing)
  /-- Before `set_delete_handle`. -/
  | installing (c : ι)
  /-- Before `++m_clients`. -/
  | counting (c : ι)
  /-- Before `add_connections`. -/
  | adding (c : ι)
  /-- In a callback of the connection. -/
  | handling (c : ι)
  /-- In the `close_connection` of `read_socket`. -/
  | ending (c : ι) (i : Closing)
  deriving DecidableEq

/-- The service and its workers. -/
structure Connections (ι ω : Type) where
  handles : ι → HandleState
  workers : ω → ServiceWorker ι
  /-- `m_clients`. -/
  clients : Int
  /-- `m_connections` of the monitor. -/
  connections : Int

namespace ServiceWorker

variable {ι : Type}

/-- The connection that the worker is busy with. -/
def conn : ServiceWorker ι → Option ι
  | .outside | .accepting => none
  | .checking c | .rejecting c | .constructing c | .failing c _ | .installing c | .counting c
  | .adding c | .handling c | .ending c _ => some c

/-- The connection in whose callbacks the worker is. -/
def inside : ServiceWorker ι → Option ι
  | .handling c | .ending c _ => some c
  | _ => none

/-- The connection that the worker brings up to `set_delete_handle`. -/
def creates : ServiceWorker ι → Option ι
  | .checking c | .rejecting c | .constructing c | .failing c _ | .installing c => some c
  | _ => none

/-- The connection whose end of file the worker handles, up to the swap. -/
def drops : ServiceWorker ι → Option ι
  | .ending _ .closing => none
  | .ending c _ => some c
  | _ => none

/-- The connection whose end of file the worker handles. -/
def ends : ServiceWorker ι → Option ι
  | .ending c _ => some c
  | _ => none

variable {q : ServiceWorker ι} {c : ι}

theorem conn_of_creates (h : q.creates = some c) : q.conn = some c := by
  cases q <;> first | exact h | cases h

theorem conn_of_ends (h : q.ends = some c) : q.conn = some c := by
  cases q <;> first | exact h | cases h

theorem ends_of_drops (h : q.drops = some c) : q.ends = some c := by
  unfold drops at h
  split at h
  · cases h
  · exact h
  · cases h

/-- Behind the swap nothing is left but the `close`. -/
theorem drops_of_ends (h : q.ends = some c) : q.drops = some c ∨ q = .ending c .closing := by
  unfold ends at h
  split at h
  · rename_i i
    cases h
    cases i with
    | closing => exact Or.inr rfl
    | _ => exact Or.inl rfl
  · cases h

end ServiceWorker

namespace Connections

variable {ι ω : Type}

inductive Action (ι ω : Type)
  /-- `new_connection` is called. -/
  | newConnection (w : ω)
  | accept (w : ω) (c : ι)
  | acceptFails (w : ω)
  /-- `register_io` of the constructor. -/
  | registerIo (w : ω) (succeeds : Bool)
  /-- The next step in `new_connection` or `close_connection`. -/
  | proceed (w : ω)
  /-- A callback of the connection is called. -/
  | notifySocket (w : ω) (c : ι)
  /-- The callback returns. -/
  | readEnd (w : ω)
  /-- `read` answers 0, so `read_socket` calls `close_connection`. -/
  | endOfFile (w : ω)

/-- The worker of an action. -/
def Action.worker : Action ι ω → ω
  | .newConnection w | .accept w _ | .acceptFails w | .registerIo w _ | .proceed w
  | .notifySocket w _ | .readEnd w | .endOfFile w => w

def new : Connections ι ω := ⟨fun _ => ⟨false, false, false, false, false⟩, fun _ => .outside, 0, 0⟩

section Step

variable [DecidableEq ι] [DecidableEq ω]

def setHandle (s : Connections ι ω) (c : ι) (x : HandleState) : Connections ι ω :=
  { s with handles := Function.update s.handles c x }

def goto (s : Connections ι ω) (w : ω) (p : ServiceWorker ι) : Connections ι ω :=
  { s with workers := Function.update s.workers w p }

/-- One step of `close_connection`, and where it leads, if not to the end. -/
def closeConnection (s : Connections ι ω) (c : ι) : Closing → Connections ι ω × Option Closing
  | .unregistering =>
      (s.setHandle c { s.handles c with registered := false }, some .uncounting)
  | .uncounting => ({ s with clients := s.clients - 1 }, some .removing)
  | .removing => ({ s with connections := s.connections - 1 }, some .dropping)
  | .dropping => (s.setHandle c { s.handles c with self := false }, some .closing)
  | .closing => (s.setHandle c { s.handles c with fdOpen := false }, none)

/-- The next step in `new_connection` or `close_connection`. -/
def proceed (maxClientCount : Int) (s : Connections ι ω) (w : ω) : Option (Connections ι ω) :=
  match s.workers w with
  | .checking c =>
      some (s.goto w (if s.clients ≥ maxClientCount then .rejecting c else .constructing c))
  | .rejecting c =>
      some ((s.setHandle c { s.handles c with fdOpen := false }).goto w .outside)
  | .failing c i =>
      let r := s.closeConnection c i
      some (r.1.goto w (r.2.elim (.installing c) (.failing c)))
  | .installing c => some ((s.setHandle c { s.handles c with self := true }).goto w (.counting c))
  | .counting c => some ({ s with clients := s.clients + 1 }.goto w (.adding c))
  | .adding _ => some ({ s with connections := s.connections + 1 }.goto w .outside)
  | .ending c i =>
      let r := s.closeConnection c i
      some (r.1.goto w (r.2.elim .outside (.ending c)))
  | .outside | .accepting | .constructing _ | .handling _ => none

/-- One step. -/
def step [Fintype ω] (maxClientCount : Int) (s : Connections ι ω) :
    Action ι ω → Option (Connections ι ω)
  | .newConnection w => if s.workers w = .outside then some (s.goto w .accepting) else none
  | .accept w c =>
      if s.workers w = .accepting ∧ (s.handles c).accepted = false then
        some ((s.setHandle c ⟨true, true, false, false, false⟩).goto w (.checking c))
      else none
  | .acceptFails w => if s.workers w = .accepting then some (s.goto w .outside) else none
  | .registerIo w succeeds =>
      match s.workers w with
      | .constructing c =>
          let x := { s.handles c with constructed := true, registered := succeeds }
          some ((s.setHandle c x).goto w
            (if succeeds then .installing c else .failing c .unregistering))
      | _ => none
  | .proceed w => s.proceed maxClientCount w
  | .notifySocket w c =>
      if s.workers w = .outside ∧ (s.handles c).registered = true ∧
          ∀ w', (s.workers w').inside ≠ some c then
        some (s.goto w (.handling c))
      else none
  | .readEnd w =>
      match s.workers w with
      | .handling _ => some (s.goto w .outside)
      | _ => none
  | .endOfFile w =>
      match s.workers w with
      | .handling c => some (s.goto w (.ending c .unregistering))
      | _ => none

end Step

/-- The property. -/
def Released (s : Connections ι ω) : Prop :=
  (∀ w, s.workers w = .outside) →
    ∀ c, (s.handles c).self = true → (s.handles c).fdOpen = true ∧ (s.handles c).registered = true

/-- The condition on the state before a step: `set_delete_handle` is called only
while `close_connection` has not passed `copy.swap(m_self)`. -/
def InstallsLive (s : Connections ι ω) (a : Action ι ω) : Prop :=
  ∀ c, s.workers a.worker = .installing c →
    (s.handles c).fdOpen = true ∧ ∀ w, s.workers w ≠ .ending c .closing

instance [DecidableEq ι] [Fintype ι] [Fintype ω] (s : Connections ι ω) (a : Action ι ω) :
    Decidable (s.InstallsLive a) :=
  inferInstanceAs (Decidable (∀ _, _ → _))

/-! ## What one step does -/

/-- The steps of a worker, one by one, with what they do to the handle `c`. -/
inductive Move (c : ι) (x : HandleState) :
    ServiceWorker ι → HandleState → ServiceWorker ι → Prop
  /-- The step is not about this connection. -/
  | other (q p : ServiceWorker ι) : q.conn ≠ some c → p.conn ≠ some c → Move c x q x p
  | accept : x.accepted = false →
      Move c x .accepting ⟨true, true, false, false, false⟩ (.checking c)
  | reject : Move c x (.checking c) x (.rejecting c)
  | construct : Move c x (.checking c) x (.constructing c)
  | closeRejected : Move c x (.rejecting c) { x with fdOpen := false } .outside
  | register : Move c x (.constructing c) { x with constructed := true, registered := true }
      (.installing c)
  | registerFails : Move c x (.constructing c) { x with constructed := true, registered := false }
      (.failing c .unregistering)
  /-- A step of `close_connection` in the constructor. -/
  | fail (i j : Closing) (x' : HandleState) : x'.accepted = x.accepted →
      x'.constructed = x.constructed → (x'.self = true → x.self = true) →
      Move c x (.failing c i) x' (.failing c j)
  | failed : Move c x (.failing c .closing) { x with fdOpen := false } (.installing c)
  | install : Move c x (.installing c) { x with self := true } (.counting c)
  | count : Move c x (.counting c) x (.adding c)
  | add : Move c x (.adding c) x .outside
  | notifySocket : x.registered = true → Move c x .outside x (.handling c)
  | readEnd : Move c x (.handling c) x .outside
  | endOfFile : Move c x (.handling c) x (.ending c .unregistering)
  | unregister : Move c x (.ending c .unregistering) { x with registered := false }
      (.ending c .uncounting)
  | uncount : Move c x (.ending c .uncounting) x (.ending c .removing)
  | remove : Move c x (.ending c .removing) x (.ending c .dropping)
  | drop : Move c x (.ending c .dropping) { x with self := false } (.ending c .closing)
  | close : Move c x (.ending c .closing) { x with fdOpen := false } .outside

section Moves

variable {H : ι → HandleState} {q p : ServiceWorker ι} {c₀ : ι}

theorem Move.of_ne (hq : q.conn = none ∨ q.conn = some c₀) (hp : p.conn = none ∨ p.conn = some c₀)
    {c : ι} (hc : c ≠ c₀) (x : HandleState) : Move c x q x p := by
  apply Move.other
  · rcases hq with hq | hq <;> simp [hq, Ne.symm hc]
  · rcases hp with hp | hp <;> simp [hp, Ne.symm hc]

/-- A move of one connection, seen from each connection. -/
theorem Move.forall_update [DecidableEq ι] {x' : HandleState} (h : Move c₀ (H c₀) q x' p)
    (hq : q.conn = none ∨ q.conn = some c₀) (hp : p.conn = none ∨ p.conn = some c₀) (c : ι) :
    Move c (H c) q (Function.update H c₀ x' c) p := by
  by_cases hc : c = c₀
  · subst hc
    rw [Function.update_self]
    exact h
  · rw [Function.update_of_ne hc]
    exact .of_ne hq hp hc (H c)

/-- The same for a move that leaves the handle as it is. -/
theorem Move.forall_same (h : Move c₀ (H c₀) q (H c₀) p) (hq : q.conn = none ∨ q.conn = some c₀)
    (hp : p.conn = none ∨ p.conn = some c₀) (c : ι) : Move c (H c) q (H c) p := by
  by_cases hc : c = c₀
  · subst hc
    exact h
  · exact .of_ne hq hp hc (H c)

variable [DecidableEq ι] [DecidableEq ω] {n : Int} {s s' : Connections ι ω}

theorem move_of_proceed {w : ω} (h : s.proceed n w = some s') :
    ∃ p, (∀ c, Move c (s.handles c) (s.workers w) (s'.handles c) p) ∧
      s'.workers = Function.update s.workers w p := by
  unfold proceed at h
  split at h <;> rename_i hw <;> cases h <;> rw [hw]
  · rename_i c
    refine ⟨_, ?_, rfl⟩
    split
    · exact Move.reject.forall_same (Or.inr rfl) (Or.inr rfl)
    · exact Move.construct.forall_same (Or.inr rfl) (Or.inr rfl)
  · exact ⟨_, Move.closeRejected.forall_update (Or.inr rfl) (Or.inl rfl), rfl⟩
  · rename_i c i
    cases i with
    | unregistering =>
      have hmove := Move.fail (c := c) (x := s.handles c) .unregistering .uncounting
        { s.handles c with registered := false } rfl rfl id
      exact ⟨_, hmove.forall_update (Or.inr rfl) (Or.inr rfl), rfl⟩
    | uncounting =>
      have hmove := Move.fail (c := c) .uncounting .removing (s.handles c) rfl rfl id
      exact ⟨_, hmove.forall_same (Or.inr rfl) (Or.inr rfl), rfl⟩
    | removing =>
      have hmove := Move.fail (c := c) .removing .dropping (s.handles c) rfl rfl id
      exact ⟨_, hmove.forall_same (Or.inr rfl) (Or.inr rfl), rfl⟩
    | dropping =>
      have hmove := Move.fail (c := c) (x := s.handles c) .dropping .closing
        { s.handles c with self := false } rfl rfl nofun
      exact ⟨_, hmove.forall_update (Or.inr rfl) (Or.inr rfl), rfl⟩
    | closing => exact ⟨_, Move.failed.forall_update (Or.inr rfl) (Or.inr rfl), rfl⟩
  · exact ⟨_, Move.install.forall_update (Or.inr rfl) (Or.inr rfl), rfl⟩
  · exact ⟨_, Move.count.forall_same (Or.inr rfl) (Or.inr rfl), rfl⟩
  · exact ⟨_, Move.add.forall_same (Or.inr rfl) (Or.inl rfl), rfl⟩
  · rename_i c i
    cases i with
    | unregistering =>
      exact ⟨_, Move.unregister.forall_update (Or.inr rfl) (Or.inr rfl), rfl⟩
    | uncounting => exact ⟨_, Move.uncount.forall_same (Or.inr rfl) (Or.inr rfl), rfl⟩
    | removing => exact ⟨_, Move.remove.forall_same (Or.inr rfl) (Or.inr rfl), rfl⟩
    | dropping => exact ⟨_, Move.drop.forall_update (Or.inr rfl) (Or.inr rfl), rfl⟩
    | closing => exact ⟨_, Move.close.forall_update (Or.inr rfl) (Or.inl rfl), rfl⟩

theorem move_of_step [Fintype ω] {a : Action ι ω} (h : s.step n a = some s') :
    ∃ p, (∀ c, Move c (s.handles c) (s.workers a.worker) (s'.handles c) p) ∧
      s'.workers = Function.update s.workers a.worker p := by
  cases a with
  | newConnection w =>
    obtain ⟨hw, h⟩ := Option.ite_none_right_eq_some.mp h
    cases h
    rw [Action.worker, hw]
    exact ⟨_, fun c => .other .outside .accepting nofun nofun, rfl⟩
  | accept w c =>
    obtain ⟨⟨hw, hc⟩, h⟩ := Option.ite_none_right_eq_some.mp h
    cases h
    rw [Action.worker, hw]
    exact ⟨_, (Move.accept hc).forall_update (Or.inl rfl) (Or.inr rfl), rfl⟩
  | acceptFails w =>
    obtain ⟨hw, h⟩ := Option.ite_none_right_eq_some.mp h
    cases h
    rw [Action.worker, hw]
    exact ⟨_, fun c => .other .accepting .outside nofun nofun, rfl⟩
  | registerIo w succeeds =>
    simp only [step] at h
    split at h
    · rename_i c hw
      cases h
      rw [Action.worker, hw]
      cases succeeds with
      | true => exact ⟨_, Move.register.forall_update (Or.inr rfl) (Or.inr rfl), rfl⟩
      | false => exact ⟨_, Move.registerFails.forall_update (Or.inr rfl) (Or.inr rfl), rfl⟩
    · cases h
  | proceed w => exact move_of_proceed h
  | notifySocket w c =>
    obtain ⟨⟨hw, hc, -⟩, h⟩ := Option.ite_none_right_eq_some.mp h
    cases h
    rw [Action.worker, hw]
    exact ⟨_, (Move.notifySocket hc).forall_same (Or.inl rfl) (Or.inr rfl), rfl⟩
  | readEnd w =>
    simp only [step] at h
    split at h
    · rename_i c hw
      cases h
      rw [Action.worker, hw]
      exact ⟨_, Move.readEnd.forall_same (Or.inr rfl) (Or.inl rfl), rfl⟩
    · cases h
  | endOfFile w =>
    simp only [step] at h
    split at h
    · rename_i c hw
      cases h
      rw [Action.worker, hw]
      exact ⟨_, Move.endOfFile.forall_same (Or.inr rfl) (Or.inr rfl), rfl⟩
    · cases h

end Moves

/-! ## The invariant -/

/-- The invariant, for one connection. -/
structure HandleInv (c : ι) (x : HandleState) (W : ω → ServiceWorker ι) : Prop where
  /-- A handle that owns itself will be dropped when its descriptor goes. -/
  held : x.self = true → x.fdOpen = true ∧ (x.registered = true ∨ ∃ v, (W v).drops = some c)
  installs : ∀ v, W v = .installing c → x.fdOpen = true →
    x.registered = true ∨ ∃ v, (W v).ends = some c
  dropped : ∀ v, W v = .ending c .closing → x.self = false
  created : ∀ v, (W v).creates = some c → x.self = false ∧ x.accepted = true
  unique : ∀ v v', (W v).creates = some c → (W v').creates = some c → v = v'

section Invariant

open ServiceWorker (creates drops ends conn_of_creates conn_of_ends ends_of_drops drops_of_ends)

variable {c : ι} {x x' : HandleState} {W : ω → ServiceWorker ι} {w : ω} {p : ServiceWorker ι}

/-- A handle that owns itself after a move: it did so before, or it was installed
in time. -/
theorem HandleInv.held_move (h : HandleInv c x W) (hm : Move c x (W w) x' p)
    (hok : W w = .installing c → x.fdOpen = true ∧ ∀ v, W v ≠ .ending c .closing)
    (hself : x'.self = true) :
    x'.fdOpen = true ∧
      (x'.registered = true ∨ p.drops = some c ∨ ∃ v, v ≠ w ∧ (W v).drops = some c) := by
  obtain ⟨hheld, hinstalls, hdropped, hcreated, -⟩ := h
  generalize hq : W w = q at hm
  cases hm with
  | install =>
    obtain ⟨hopen, hclosing⟩ := hok hq
    refine ⟨hopen, ?_⟩
    rcases hinstalls w hq hopen with hregistered | ⟨v, hv⟩
    · exact Or.inl hregistered
    · have hvw : v ≠ w := by
        rintro rfl
        rw [hq] at hv
        cases hv
      exact Or.inr (Or.inr ⟨v, hvw, (drops_of_ends hv).resolve_right (hclosing v)⟩)
  | _ => grind [creates, drops, conn_of_ends, ends_of_drops]

/-- A worker in front of `set_delete_handle` after a move. -/
theorem HandleInv.installs_move (h : HandleInv c x W) (hm : Move c x (W w) x' p)
    (hinst : p = .installing c ∨ ∃ v, v ≠ w ∧ W v = .installing c) (hopen : x'.fdOpen = true) :
    x'.registered = true ∨ p.ends = some c ∨ ∃ v, v ≠ w ∧ (W v).ends = some c := by
  obtain ⟨-, hinstalls, -, hcreated, hunique⟩ := h
  generalize hq : W w = q at hm
  cases hm <;> grind [creates, ends, conn_of_ends, ServiceWorker.conn]

theorem HandleInv.move [DecidableEq ω] (h : HandleInv c x W) (hm : Move c x (W w) x' p)
    (hok : W w = .installing c → x.fdOpen = true ∧ ∀ v, W v ≠ .ending c .closing) :
    HandleInv c x' (Function.update W w p) where
  held hself := by
    rw [Function.exists_update_iff W fun _ q => q.drops = some c]
    exact h.held_move hm hok hself
  installs v hv hopen := by
    rw [Function.exists_update_iff W fun _ q => q.ends = some c]
    apply h.installs_move hm _ hopen
    rw [← Function.exists_update_iff W fun _ q => q = .installing c]
    exact ⟨v, hv⟩
  dropped := by
    rw [Function.forall_update_iff W fun _ q => q = .ending c .closing → _]
    obtain ⟨-, -, hdropped, hcreated, -⟩ := h
    generalize hq : W w = q at hm
    cases hm <;> grind [creates, ServiceWorker.conn]
  created := by
    rw [Function.forall_update_iff W fun _ q => q.creates = some c → _]
    obtain ⟨-, -, -, hcreated, hunique⟩ := h
    generalize hq : W w = q at hm
    cases hm <;> grind [creates, conn_of_creates]
  unique := by
    obtain ⟨-, -, -, hcreated, hunique⟩ := h
    generalize hq : W w = q at hm
    cases hm <;> grind [creates, conn_of_creates, Function.update_apply]

theorem handleInv_new (c : ι) :
    HandleInv c ((new : Connections ι ω).handles c) (new : Connections ι ω).workers :=
  ⟨nofun, nofun, nofun, nofun, nofun⟩

end Invariant

variable [DecidableEq ι] [DecidableEq ω] [Fintype ω] {n : Int} {s : Connections ι ω}

/-- In every run that calls `set_delete_handle` in time, a handle that owns
itself when everybody has returned is open and registered. -/
theorem released_of_installsLive (h : ReachableIf (step n) InstallsLive new s) : s.Released := by
  have hinv : ∀ c, HandleInv c (s.handles c) s.workers := by
    apply h.invariant handleInv_new
    intro s a s' hinv hok hs c
    obtain ⟨p, hmove, hworkers⟩ := move_of_step hs
    rw [hworkers]
    exact (hinv c).move (hmove c) (hok c)
  intro houtside c hself
  obtain ⟨hopen, hregistered | ⟨w, hw⟩⟩ := (hinv c).held hself
  · exact ⟨hopen, hregistered⟩
  · rw [houtside w] at hw
    cases hw

/-- One connection is closed by the other worker, and a second one stays. -/
theorem released_of_installsLive_two_connections :
    ∃ s : Connections (Fin 2) (Fin 2),
      ((∀ w, s.workers w = .outside) ∧ (s.handles 1).self = true ∧
        (s.handles 0).constructed = true ∧ (s.handles 0).fdOpen = false) ∧ s.Released := by
  obtain ⟨s, hs, hP⟩ : ∃ s : Connections (Fin 2) (Fin 2),
      ReachableIf (step 8) InstallsLive new s ∧
        ((∀ w, s.workers w = .outside) ∧ (s.handles 1).self = true ∧
          (s.handles 0).constructed = true ∧ (s.handles 0).fdOpen = false) :=
    exists_reachable_of_run
      [.newConnection 0, .accept 0 0, .proceed 0, .registerIo 0 true, .notifySocket 1 0,
        .endOfFile 1, .proceed 1, .proceed 0, .proceed 1, .proceed 1, .proceed 1, .proceed 1,
        .proceed 0, .proceed 0, .newConnection 1, .accept 1 1, .proceed 1, .registerIo 1 true,
        .proceed 1, .proceed 1, .proceed 1]
      (by decide +kernel)
  exact ⟨s, hP, released_of_installsLive hs⟩

/-- The end of the file is read and the connection closed between the
constructor and `set_delete_handle`. -/
theorem handle_owns_itself_forever :
    ∃ s : Connections (Fin 1) (Fin 2), Reachable (step 8) new s ∧ ¬ s.Released := by
  obtain ⟨s, hs, houtside, hself, hopen⟩ : ∃ s : Connections (Fin 1) (Fin 2),
      Reachable (step 8) new s ∧
        (∀ w, s.workers w = .outside) ∧ (s.handles 0).self = true ∧ (s.handles 0).fdOpen = false :=
    exists_reachable_of_run
      [.newConnection 0, .accept 0 0, .proceed 0, .registerIo 0 true, .notifySocket 1 0,
        .endOfFile 1, .proceed 1, .proceed 1, .proceed 1, .proceed 1, .proceed 1, .proceed 0,
        .proceed 0, .proceed 0]
      (by decide +kernel)
  refine ⟨s, hs, fun h => ?_⟩
  rw [(h houtside 0 hself).1] at hopen
  cases hopen

end Connections

end CppRpc
