import Mathlib.Logic.Function.Basic
import CppRpc.Net.Socket

/-!
# `IoService::poll` of the server

The epoll workers of the server with the kernel.  An event is reported with
the number of its descriptor alone.  The worker looks the number up in
`m_callback_map` for `E_READ`, again for `E_WRITE`, and at the end arms it
again.  A callback of a `RequestHandle` may close its connection, and one of
the listener accepts connections; the kernel gives them any number that is
free.

A step is a call of one of these functions, or one of the calls to the kernel
in them.  `epoll_wait` reports a descriptor that is armed to one worker, and
disarms it.

The sockets are blocking ones, so `accept`, `read` and `write` in a callback may
keep the worker; nothing is said of how long.  A worker leaves `poll` when
`epoll_wait` fails, with a signal for one, or `m_exit` is set, and there is
nobody in its place then.
-/

namespace CppRpc

/-- Whose callbacks are called: those of the `ServerService`, on the listening
descriptor, or those of a `RequestHandle`. -/
inductive Owner
  | listener
  | connection (id : Nat)
  deriving DecidableEq

/-- An `epoll_event`.  `origin` is a history: the owner it was reported for. -/
structure EpollEvent where
  fd : Nat
  epollIn : Bool
  epollOut : Bool
  origin : Owner

/-- Where a callback stands. -/
inductive Callback
  | body
  /-- In a call of `accept`, `read` or `write`. -/
  | blocked
  /-- In `close_connection`, behind `unregister_io`. -/
  | unregistered
  /-- In `new_connection`, behind `accept_connection`. -/
  | accepted (id : Nat)
  deriving DecidableEq

/-- Where a worker stands with the first event of its batch. -/
inductive Stage
  | waiting
  /-- Before `response_event` with `E_READ`. -/
  | read
  | inside (e : IoEvent) (target : Owner) (callback : Callback)
  /-- Before `response_event` with `E_WRITE`. -/
  | write
  /-- Before `modify_event`. -/
  | rearm
  /-- Behind the loop of `poll`. -/
  | stopped
  deriving DecidableEq

/-- A worker in `poll`, with the events it has not finished. -/
structure PollWorker where
  batch : List EpollEvent
  stage : Stage

/-- The owner whose callback the worker is in. -/
def PollWorker.target (p : PollWorker) : Option Owner :=
  match p.stage with
  | .inside _ target _ => some target
  | _ => none

/-- The connection that the worker has accepted and not yet registered. -/
def PollWorker.accepted (p : PollWorker) : Option Nat :=
  match p.stage with
  | .inside _ _ (.accepted id) => some id
  | _ => none

/-- The stage behind a callback. -/
def Stage.behind : IoEvent → Stage
  | .E_READ => .write
  | .E_WRITE | .E_RW => .rearm

/-- The workers `ω` and the kernel.  `epoll` holds the owner of a registered
descriptor, and whether it is armed; `fds` and `closed` are the number that a
connection was accepted with, and whether its `m_fd` is reset.  `dispatched`
and `rearmed` are histories: the owners an event was reported for and went to. -/
structure Poll (ω : Type) where
  epoll : Nat → Option (Owner × Bool)
  callbackMap : Nat × IoEvent → Option Owner
  openFds : Nat → Bool
  fds : Nat → Nat
  closed : Nat → Bool
  next : Nat
  workers : ω → PollWorker
  dispatched : List (Owner × Owner)
  rearmed : List (Owner × Owner)

namespace Poll

variable {ω : Type}

inductive Action (ω : Type)
  /-- `epoll_wait` reports one more event. -/
  | report (w : ω) (fd : Nat) (epollIn epollOut : Bool)
  /-- `epoll_wait` returns. -/
  | process (w : ω)
  /-- `epoll_wait` returns -1, or `m_exit` is set. -/
  | stop (w : ω)
  /-- `response_event`, up to the call. -/
  | dispatch (w : ω)
  /-- The kernel keeps the worker in a call of the callback. -/
  | block (w : ω)
  | unblock (w : ω)
  /-- The callback returns. -/
  | leave (w : ω)
  /-- `unregister_io` in `close_connection`. -/
  | unregister (w : ω)
  /-- `close` in `close_connection`. -/
  | close (w : ω)
  | accept (w : ω) (fd : Nat)
  /-- `new_connection` closes the descriptor again. -/
  | reject (w : ω)
  /-- The constructor of the `RequestHandle`, whose `register_io` succeeds. -/
  | register (w : ω)
  /-- The constructor, whose `register_io` fails. -/
  | registerFails (w : ω)
  | modifyEvent (w : ω)

/-- The listening descriptor is registered, and the workers wait. -/
def new (listenFd : Nat) : Poll ω where
  epoll := fun fd => if fd = listenFd then some (.listener, true) else none
  callbackMap := fun key => if key.1 = listenFd ∧ key.2 ≠ .E_RW then some .listener else none
  openFds := fun fd => fd = listenFd
  fds := fun _ => 0
  closed := fun _ => false
  next := 0
  workers := fun _ => ⟨[], .waiting⟩
  dispatched := []
  rearmed := []

def setWorker [DecidableEq ω] (s : Poll ω) (w : ω) (p : PollWorker) : Poll ω :=
  { s with workers := Function.update s.workers w p }

@[simp] theorem setWorker_self [DecidableEq ω] (s : Poll ω) (w : ω) (p : PollWorker) :
    (s.setWorker w p).workers w = p := Function.update_self ..

theorem setWorker_of_ne [DecidableEq ω] (s : Poll ω) {w w' : ω} (p : PollWorker) (h : w' ≠ w) :
    (s.setWorker w p).workers w' = s.workers w' := Function.update_of_ne h ..

/-- The worker goes on to another stage of its event. -/
def goto [DecidableEq ω] (s : Poll ω) (w : ω) (stage : Stage) : Poll ω :=
  s.setWorker w { s.workers w with stage }

/-- `response_event` for the first event of the worker. -/
def responseEvent [DecidableEq ω] (s : Poll ω) (w : ω) (ev : EpollEvent) (e : IoEvent) : Poll ω :=
  match s.callbackMap (ev.fd, e) with
  | some target => { s.goto w (.inside e target .body) with
      dispatched := s.dispatched ++ [(ev.origin, target)] }
  | none => s.goto w (Stage.behind e)

/-- `unregister_io` with `E_RW`, which does nothing when epoll does not have
the descriptor. -/
def unregisterIo (s : Poll ω) (fd : Nat) : Poll ω :=
  match s.epoll fd with
  | some _ => { s with
      epoll := Function.update s.epoll fd none
      callbackMap := fun key => if key.1 = fd then none else s.callbackMap key }
  | none => s

/-- `close`: the kernel forgets the descriptor. -/
def closeFd (s : Poll ω) (fd : Nat) : Poll ω :=
  { s with
    epoll := Function.update s.epoll fd none
    openFds := Function.update s.openFds fd false }

/-- `accept_connection`: the kernel gives the next connection a number. -/
def accept (s : Poll ω) (fd : Nat) : Poll ω :=
  { s with
    openFds := Function.update s.openFds fd true
    fds := Function.update s.fds s.next fd
    next := s.next + 1 }

/-- `register_io` with `E_RW`, for a descriptor that epoll does not have. -/
def registerIo (s : Poll ω) (fd : Nat) (o : Owner) : Poll ω :=
  { s with
    epoll := Function.update s.epoll fd (some (o, true))
    callbackMap := fun key => if key.1 = fd ∧ key.2 ≠ .E_RW then some o else s.callbackMap key }

/-- `modify_event` with `E_RW`, which fails when epoll does not have the
descriptor. -/
def modifyEvent (s : Poll ω) (ev : EpollEvent) : Poll ω :=
  match s.epoll ev.fd with
  | some (o, _) => { s with
      epoll := Function.update s.epoll ev.fd (some (o, true))
      rearmed := s.rearmed ++ [(ev.origin, o)] }
  | none => s

/-- One step. -/
def step [DecidableEq ω] (s : Poll ω) : Action ω → Option (Poll ω)
  | .report w fd epollIn epollOut =>
      match (s.workers w).stage, s.epoll fd with
      | .waiting, some (o, true) =>
          if (s.workers w).batch.length < 10 then
            let batch := (s.workers w).batch ++ [⟨fd, epollIn, epollOut, o⟩]
            some { s.setWorker w ⟨batch, .waiting⟩ with
              epoll := Function.update s.epoll fd (some (o, false)) }
          else none
      | _, _ => none
  | .process w =>
      match (s.workers w).stage, (s.workers w).batch with
      | .waiting, _ :: _ => some (s.goto w .read)
      | _, _ => none
  | .stop w =>
      match (s.workers w).stage, (s.workers w).batch with
      | .waiting, [] => some (s.goto w .stopped)
      | _, _ => none
  | .dispatch w =>
      match (s.workers w).stage, (s.workers w).batch with
      | .read, ev :: _ =>
          some (if ev.epollIn then s.responseEvent w ev .E_READ else s.goto w .write)
      | .write, ev :: _ =>
          some (if ev.epollOut then s.responseEvent w ev .E_WRITE else s.goto w .rearm)
      | _, _ => none
  | .block w =>
      match (s.workers w).stage with
      | .inside e o .body => some (s.goto w (.inside e o .blocked))
      | _ => none
  | .unblock w =>
      match (s.workers w).stage with
      | .inside e o .blocked => some (s.goto w (.inside e o .body))
      | _ => none
  | .leave w =>
      match (s.workers w).stage with
      | .inside e _ .body => some (s.goto w (Stage.behind e))
      | _ => none
  | .unregister w =>
      match (s.workers w).stage with
      | .inside .E_READ (.connection c) .body =>
          let s' := if s.closed c then s else s.unregisterIo (s.fds c)
          some (s'.goto w (.inside .E_READ (.connection c) .unregistered))
      | _ => none
  | .close w =>
      match (s.workers w).stage with
      | .inside e (.connection c) .unregistered =>
          let s' := if s.closed c then s else s.closeFd (s.fds c)
          some ({ s' with closed := Function.update s.closed c true }.goto w (Stage.behind e))
      | _ => none
  | .accept w fd =>
      match (s.workers w).stage with
      | .inside e .listener .body =>
          if s.openFds fd then none
          else if 0 < fd then some ((s.accept fd).goto w (.inside e .listener (.accepted s.next)))
          -- `new_connection` leaves a descriptor 0 alone.
          else some ({ s with openFds := Function.update s.openFds fd true }.goto w
            (Stage.behind e))
      | _ => none
  | .reject w =>
      match (s.workers w).stage with
      | .inside e _ (.accepted id) => some ((s.closeFd (s.fds id)).goto w (Stage.behind e))
      | _ => none
  | .register w =>
      match (s.workers w).stage with
      | .inside e _ (.accepted id) =>
          if s.epoll (s.fds id) = none then
            some ((s.registerIo (s.fds id) (.connection id)).goto w (Stage.behind e))
          else none
      | _ => none
  | .registerFails w =>
      match (s.workers w).stage with
      | .inside e _ (.accepted id) => some (({ (s.unregisterIo (s.fds id)).closeFd (s.fds id) with
          closed := Function.update s.closed id true }).goto w (Stage.behind e))
      | _ => none
  | .modifyEvent w =>
      match (s.workers w).stage, (s.workers w).batch with
      | .rearm, ev :: batch =>
          some ((s.modifyEvent ev).setWorker w ⟨batch, if batch.isEmpty then .waiting else .read⟩)
      | _, _ => none

end Poll

end CppRpc
