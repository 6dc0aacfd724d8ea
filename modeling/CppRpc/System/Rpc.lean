import CppRpc.Lib.Components
import CppRpc.Net.Drain
import CppRpc.Server.Answers
import CppRpc.System.StubCall

/-!
# Clients and a server

Any number of clients `κ`, with one connection each, any number of calls `ι` of
their stubs, and one server with epoll workers `ω` and pool workers `υ`.  A call
goes all its way: the request is serialised into the array of the stub,
registered, written to the cache, carried by the sockets, taken by
`read_package`, dispatched, executed in the pool, and the response goes back to
the handle that `response_tag` finds and from there to the array of the stub.

The parts are those of the other modules: a `Link` for each direction of a
connection, a `RequestServer`, a `ResponseHandle` for each call.  The actions
are taken in any order.  A wait may end at any time, which covers every
behaviour of `Condition`, and epoll workers may come to a connection in any
order.  `resends` is the loop in `send_request`, as in `ClientService.step`.

A copy that leaves its array is not a step, and neither is a response that does
not fit the array of its request.  `Within` is the condition on a run: each
response fits, `write_package` finds room for its frame or no room for a header,
and the kernel does what `Link.Allowed` says.  The requests fit the array of the
stub (`StubCall.fits`).  `parts_of_step` is the link to
the parts: in every run each of them runs as it does by itself.
-/

namespace CppRpc

open CData Proto3 Runs

/-! ## The sending end -/

namespace Link

/-- `write_package` at the sending end: what it answers, and the connection. -/
def send (l : Link) (payload : List UInt8) : Option (Bool × Link) :=
  (l.sender.writePackage payload payload.length).map fun r =>
    (r.1, { l with
      sender := r.2
      written := if r.1 then l.written ++ [payload] else l.written })

/-- The cache has no room for a header. -/
def Refuses (l : Link) : Prop := l.sender.capacity - l.sender.size < 8

/-- `write_package` is all or nothing. -/
def Takes (l : Link) (payload : List UInt8) : Prop :=
  l.Allowed (.writePackage payload) ∨ l.Refuses

instance (l : Link) (payload : List UInt8) : Decidable (l.Takes payload) :=
  inferInstanceAs (Decidable (_ ∨ _ < _))

variable {l l' : Link} {payload : List UInt8} {b : Bool}

theorem send_histories (h : l.send payload = some (b, l')) :
    l'.written = (if b then l.written ++ [payload] else l.written) ∧ l'.handed = l.handed := by
  obtain ⟨r, -, hr⟩ := Option.map_eq_some_iff.mp h
  cases hr
  exact ⟨rfl, rfl⟩

/-- The connection takes a step, or stays as it is. -/
theorem send_step (h : l.send payload = some (b, l')) (ht : l.Takes payload) :
    l' = l ∨ ∃ a, l.Allowed a ∧ l.step a = some l' := by
  rcases ht with ha | hrefuses
  · refine Or.inr ⟨_, ha, ?_⟩
    obtain ⟨r, hr, hl⟩ := Option.map_eq_some_iff.mp h
    cases hl
    rw [step, hr, Option.map_some]
  · left
    have hrejected : l.sender.writePackage payload payload.length = some (false, l.sender) := by
      have hfull : l.sender.capacity - l.sender.size < sizeofHeader := hrefuses
      unfold BufferCacheBase.writePackage
      dsimp only
      rw [BufferCacheBase.write_rejected l.sender (Or.inr (Or.inr hfull)), Option.bind_some,
        if_pos rfl]
    unfold send at h
    rw [hrejected] at h
    cases h
    rfl

end Link

/-! ## The system -/

/-- What the two ends are made of. -/
structure Program (κ ι : Type) where
  strHash : Value → BitVec 64
  /-- The functions of the server. -/
  defs : List (FuncDef × CppFunction)
  call : ι → StubCall
  /-- The client that makes the call. -/
  client : ι → κ
  /-- Whether `send_request` has the loop behind the registration. -/
  resends : Bool

namespace Program

variable {κ ι : Type} (p : Program κ ι)

def rpcFuncs : RpcFuncMap := registered p.defs

def tag (i : ι) : BitVec 32 := (p.call i).tag p.strHash

/-- The calls of one client have different tags. -/
def DistinctTags : Prop := ∀ i j, p.client i = p.client j → p.tag i = p.tag j → i = j

/-- The response to each call fits the array of its request. -/
def InPlace : Prop := ∀ i, ResponseFits p.rpcFuncs (p.call i).request

/-- Both ends come from one definition file. -/
def SharedDefs : Prop := ∀ i, ∀ e ∈ p.defs, e.1.name = (p.call i).d.name → e.1 = (p.call i).d

end Program

/-- Where a call stands in the stub and in `send_request`. -/
inductive RpcStage
  | idle
  /-- Before the lock on the handles. -/
  | registering
  /-- Before `write_package`. -/
  | writing
  /-- In `ResponseHandle::read`. -/
  | waiting
  | thrown (e : State)
  | returned (v : Value)
  deriving DecidableEq

/-- The clients and the server.  `taken` and `matched` count the payloads that
`handle_request` and `response_tag` have been called with.  `writes` and
`dropped` are histories: how often `write_package` took the request of a call,
and the responses that it refused. -/
structure Rpc (κ ι ω υ : Type) where
  fd : κ → Int
  stage : ι → RpcStage
  handles : ι → Option ResponseHandle
  responseHandles : κ → BitVec 32 → Option ι
  delivering : κ → Option (ι × List UInt8)
  requests : κ → Link
  responses : κ → Link
  taken : κ → Nat
  matched : κ → Nat
  server : RequestServer κ ω υ
  writes : ι → Nat
  dropped : κ → List (List UInt8)

namespace Rpc

variable {κ ι ω υ : Type}

inductive Action (κ ι ω υ : Type)
  /-- The stub up to the test of `m_fd`. -/
  | start (i : ι)
  | register (i : ι)
  | writePackage (i : ι)
  | timeOut (i : ι)
  /-- The wait ends, and the response is copied out. -/
  | read (i : ι)
  | closeConnection (k : κ)
  /-- A turn of `ClientService::write_socket`. -/
  | clientWrite (k : κ) (accepted : Nat)
  /-- `RequestHandle::read_socket` up to the first `read_package`. -/
  | serverRead (k : κ) (arrived : Nat)
  /-- A turn of `RequestHandle::write_socket`. -/
  | serverWrite (k : κ) (accepted : Nat)
  /-- `ClientService::read_socket` up to the first `read_package`. -/
  | clientRead (k : κ) (arrived : Nat)
  /-- `read_package` of the server returns true. -/
  | readPackage (w : ω)
  /-- A pool worker. -/
  | work (u : υ)
  /-- Another step of an epoll worker. -/
  | server (a : RequestServer.Action κ ω υ)
  /-- `response_tag` and the search for the handle. -/
  | responseTag (k : κ)
  /-- `ResponseHandle::write`. -/
  | write (k : κ)

/-- Fresh clients, with caches of the two sizes. -/
def new (fd : κ → Int) (clientCache serverCache : Int) : Rpc κ ι ω υ :=
  { fd
    stage := fun _ => .idle
    handles := fun _ => none
    responseHandles := fun _ _ => none
    delivering := fun _ => none
    requests := fun _ => .new clientCache serverCache
    responses := fun _ => .new serverCache clientCache
    taken := fun _ => 0
    matched := fun _ => 0
    server := .new
    writes := fun _ => 0
    dropped := fun _ => [] }

section Step

variable [DecidableEq κ] [DecidableEq ι]

def goto (s : Rpc κ ι ω υ) (i : ι) (stage : RpcStage) : Rpc κ ι ω υ :=
  { s with stage := Function.update s.stage i stage }

def setHandle (s : Rpc κ ι ω υ) (i : ι) (h : ResponseHandle) : Rpc κ ι ω υ :=
  { s with handles := Function.update s.handles i (some h) }

def setRequests (s : Rpc κ ι ω υ) (k : κ) (l : Link) : Rpc κ ι ω υ :=
  { s with requests := Function.update s.requests k l }

def setResponses (s : Rpc κ ι ω υ) (k : κ) (l : Link) : Rpc κ ι ω υ :=
  { s with responses := Function.update s.responses k l }

/-- Where a call goes behind `write_package`. -/
def written (resends : Bool) (taken : Bool) : RpcStage :=
  if resends then .writing
  else if taken then .waiting
  else .thrown .S_LOCAL_CACHE_FULL

/-- Where a call goes behind `ResponseHandle::read`, which answers `r`. -/
def answered (c : StubCall) (r : Int × List UInt8) : RpcStage :=
  if r.1 = 0 then .thrown .S_TIME_OUT else .returned (c.result (r.2.take r.1.toNat))

/-- One step. -/
def step [DecidableEq ω] [DecidableEq υ] (p : Program κ ι) (s : Rpc κ ι ω υ) :
    Action κ ι ω υ → Option (Rpc κ ι ω υ)
  | .start i =>
      if s.stage i = .idle then
        some (s.goto i (if s.fd (p.client i) < 0 then .thrown .S_NO_CONNECTION else .registering))
      else none
  | .register i =>
      if s.stage i = .registering then
        let k := p.client i
        some { (s.goto i .writing).setHandle i (.new (p.tag i)) with
          responseHandles := Function.update s.responseHandles k
            (Function.update (s.responseHandles k) (p.tag i) (some i)) }
      else none
  | .writePackage i =>
      if s.stage i = .writing then
        ((s.requests (p.client i)).send (p.call i).request).map fun r =>
          { (s.goto i (written p.resends r.1)).setRequests (p.client i) r.2 with
            writes := if r.1 then Function.update s.writes i (s.writes i + 1) else s.writes }
      else none
  | .timeOut i =>
      match s.stage i, s.handles i with
      | .waiting, some h => some (s.setHandle i h.timeOut)
      | _, _ => none
  | .read i =>
      match s.stage i, s.handles i with
      | .waiting, some h =>
          (serializeToBlock (p.call i).request).bind fun buf =>
            (h.readOut buf BLOCK_SIZE).map fun r => s.goto i (answered (p.call i) r)
      | _, _ => none
  | .closeConnection k => some { s with fd := Function.update s.fd k (-1) }
  | .clientWrite k accepted =>
      if s.fd k < 0 then none
      else ((s.requests k).step (.writeTurn accepted)).map (s.setRequests k)
  | .serverRead k arrived => ((s.requests k).step (.readSocket arrived)).map (s.setRequests k)
  | .serverWrite k accepted => ((s.responses k).step (.writeTurn accepted)).map (s.setResponses k)
  | .clientRead k arrived =>
      if s.fd k < 0 then none
      else ((s.responses k).step (.readSocket arrived)).map (s.setResponses k)
  | .readPackage w =>
      match s.server.readers w with
      | .reading k =>
          (s.requests k).handed[s.taken k]?.bind fun x =>
            (s.server.step p.rpcFuncs (.readPackage w x.bytes)).map fun server =>
              { s with server, taken := Function.update s.taken k (s.taken k + 1) }
      | _ => none
  | .work u =>
      match s.server.worker u with
      | .executing (some t) =>
          (workerCaller p.rpcFuncs t.func t.ptr).bind fun out =>
            (s.server.step p.rpcFuncs (.work u)).bind fun server =>
              ((s.responses t.handle).send out).map fun r =>
                { s.setResponses t.handle r.2 with
                  server
                  dropped :=
                    if r.1 then s.dropped
                    else Function.update s.dropped t.handle (s.dropped t.handle ++ [out]) }
      | _ => (s.server.step p.rpcFuncs (.work u)).map fun server => { s with server }
  | .server a =>
      match a with
      | .readPackage _ _ | .work _ => none
      | a => (s.server.step p.rpcFuncs a).map fun server => { s with server }
  | .responseTag k =>
      if s.delivering k = none then
        (s.responses k).handed[s.matched k]?.map fun x =>
          let tag := tagOfResponse p.strHash x.bytes
          { s with
            matched := Function.update s.matched k (s.matched k + 1)
            responseHandles := Function.update s.responseHandles k
              (Function.update (s.responseHandles k) tag none)
            delivering := Function.update s.delivering k
              ((s.responseHandles k tag).map fun i => (i, x.bytes)) }
      else none
  | .write k =>
      match s.delivering k with
      | some (i, buf) =>
          (s.handles i).bind fun h =>
            (h.write buf buf.length).map fun r =>
              { s.setHandle i r.2 with delivering := Function.update s.delivering k none }
      | none => none

/-- What a response and `write_package` find, and what the kernel promises. -/
def Within (p : Program κ ι) (s : Rpc κ ι ω υ) : Action κ ι ω υ → Prop
  | .writePackage i => (s.requests (p.client i)).Takes (p.call i).request
  | .clientWrite k accepted => (s.requests k).Allowed (.writeTurn accepted)
  | .serverRead k arrived => (s.requests k).Allowed (.readSocket arrived)
  | .serverWrite k accepted => (s.responses k).Allowed (.writeTurn accepted)
  | .clientRead k arrived => (s.responses k).Allowed (.readSocket arrived)
  | .work u =>
      (RequestServer.respondTo p.rpcFuncs (s.server.worker u)).isSome ∧
        ∀ x ∈ (RequestServer.respondTo p.rpcFuncs (s.server.worker u)).getD [],
          (s.responses x.1).Takes x.2
  | _ => True

instance (p : Program κ ι) (s : Rpc κ ι ω υ) : DecidablePred (s.Within p)
  | .writePackage _ => inferInstanceAs (Decidable (Link.Takes _ _))
  | .clientWrite _ accepted => inferInstanceAs (Decidable (Link.Allowed _ (.writeTurn accepted)))
  | .serverRead _ arrived => inferInstanceAs (Decidable (Link.Allowed _ (.readSocket arrived)))
  | .serverWrite _ accepted => inferInstanceAs (Decidable (Link.Allowed _ (.writeTurn accepted)))
  | .clientRead _ arrived => inferInstanceAs (Decidable (Link.Allowed _ (.readSocket arrived)))
  | .work _ => inferInstanceAs (Decidable (_ ∧ ∀ x ∈ _, _))
  | .start _ | .register _ | .timeOut _ | .read _ | .closeConnection _ | .readPackage _ | .server _
  | .responseTag _ | .write _ => inferInstanceAs (Decidable True)

/-! ## The steps -/

/-- What a step does. -/
inductive Effect [DecidableEq ω] [DecidableEq υ] (p : Program κ ι) (s : Rpc κ ι ω υ) :
    Action κ ι ω υ → Rpc κ ι ω υ → Prop
  | start (i : ι) : s.stage i = .idle → Effect p s (.start i)
      (s.goto i (if s.fd (p.client i) < 0 then .thrown .S_NO_CONNECTION else .registering))
  | register (i : ι) : s.stage i = .registering → Effect p s (.register i)
      { (s.goto i .writing).setHandle i (.new (p.tag i)) with
        responseHandles := Function.update s.responseHandles (p.client i)
          (Function.update (s.responseHandles (p.client i)) (p.tag i) (some i)) }
  | writePackage (i : ι) (b : Bool) (l : Link) : s.stage i = .writing →
      (s.requests (p.client i)).send (p.call i).request = some (b, l) →
      Effect p s (.writePackage i)
        { (s.goto i (written p.resends b)).setRequests (p.client i) l with
          writes := if b then Function.update s.writes i (s.writes i + 1) else s.writes }
  | timeOut (i : ι) (h : ResponseHandle) : s.handles i = some h →
      Effect p s (.timeOut i) (s.setHandle i h.timeOut)
  | read (i : ι) (h : ResponseHandle) (buf : List UInt8) (r : Int × List UInt8) :
      s.stage i = .waiting → s.handles i = some h →
      serializeToBlock (p.call i).request = some buf → h.readOut buf BLOCK_SIZE = some r →
      Effect p s (.read i) (s.goto i (answered (p.call i) r))
  | closeConnection (k : κ) : Effect p s (.closeConnection k)
      { s with fd := Function.update s.fd k (-1) }
  | clientWrite (k : κ) (accepted : Nat) (l : Link) :
      (s.requests k).step (.writeTurn accepted) = some l →
      Effect p s (.clientWrite k accepted) (s.setRequests k l)
  | serverRead (k : κ) (arrived : Nat) (l : Link) :
      (s.requests k).step (.readSocket arrived) = some l →
      Effect p s (.serverRead k arrived) (s.setRequests k l)
  | serverWrite (k : κ) (accepted : Nat) (l : Link) :
      (s.responses k).step (.writeTurn accepted) = some l →
      Effect p s (.serverWrite k accepted) (s.setResponses k l)
  | clientRead (k : κ) (arrived : Nat) (l : Link) :
      (s.responses k).step (.readSocket arrived) = some l →
      Effect p s (.clientRead k arrived) (s.setResponses k l)
  | readPackage (w : ω) (k : κ) (x : Payload) : s.server.readers w = .reading k →
      (s.requests k).handed[s.taken k]? = some x → Effect p s (.readPackage w)
        { s with
          server := { s.server with
            readers := Function.update s.server.readers w (.handling k x.bytes)
            received := s.server.received ++ [(k, x.bytes)] }
          taken := Function.update s.taken k (s.taken k + 1) }
  | execute (u : υ) (t : WorkerCaller κ) (out : List UInt8) (server : RequestServer κ ω υ)
      (b : Bool) (l : Link) : s.server.worker u = .executing (some t) →
      RequestServer.respondTo p.rpcFuncs (s.server.worker u) = some [(t.handle, out)] →
      out.length ≤ t.ptr.length → s.server.step p.rpcFuncs (.work u) = some server →
      server.received = s.server.received →
      server.responses = s.server.responses ++ [(t.handle, out)] →
      (s.responses t.handle).send out = some (b, l) → Effect p s (.work u)
        { s.setResponses t.handle l with
          server
          dropped :=
            if b then s.dropped
            else Function.update s.dropped t.handle (s.dropped t.handle ++ [out]) }
  | server (a : Action κ ι ω υ) (b : RequestServer.Action κ ω υ) (server : RequestServer κ ω υ) :
      s.server.step p.rpcFuncs b = some server → server.received = s.server.received →
      server.responses = s.server.responses → a = .server b ∨ (∃ u, a = .work u ∧ b = .work u) →
      Effect p s a { s with server }
  | responseTag (k : κ) (x : Payload) : s.delivering k = none →
      (s.responses k).handed[s.matched k]? = some x → Effect p s (.responseTag k)
        { s with
          matched := Function.update s.matched k (s.matched k + 1)
          responseHandles := Function.update s.responseHandles k
            (Function.update (s.responseHandles k) (tagOfResponse p.strHash x.bytes) none)
          delivering := Function.update s.delivering k
            ((s.responseHandles k (tagOfResponse p.strHash x.bytes)).map fun i => (i, x.bytes)) }
  | write (k : κ) (i : ι) (buf : List UInt8) (h : ResponseHandle) (r : Int × ResponseHandle) :
      s.delivering k = some (i, buf) → s.handles i = some h → h.write buf buf.length = some r →
      Effect p s (.write k)
        { s.setHandle i r.2 with delivering := Function.update s.delivering k none }

section Effect

variable [DecidableEq ω] [DecidableEq υ] {p : Program κ ι} {s s' : Rpc κ ι ω υ}

omit [DecidableEq κ] [DecidableEq ι] in
/-- The steps of the server that neither receive nor answer. -/
theorem server_histories {a : RequestServer.Action κ ω υ} {server : RequestServer κ ω υ}
    (h : s.server.step p.rpcFuncs a = some server) (hread : ∀ w buf, a ≠ .readPackage w buf)
    (hwork : ∀ u, a = .work u → RequestServer.respondTo p.rpcFuncs (s.server.worker u) = some []) :
    server.received = s.server.received ∧ server.responses = s.server.responses := by
  cases a with
  | readPackage w buf => exact absurd rfl (hread w buf)
  | work u =>
    simp only [RequestServer.step, hwork u rfl, Option.bind_some, List.append_nil] at h
    obtain ⟨r, -, rfl⟩ := Option.map_eq_some_iff.mp h
    exact ⟨rfl, rfl⟩
  | readStart w c | handleRequest w | push w | notify w | readEnd w =>
    simp only [RequestServer.step] at h
    split at h
    · first
      | cases h
        exact ⟨rfl, rfl⟩
      | split at h
        · cases h
          exact ⟨rfl, rfl⟩
        · cases h
          exact ⟨rfl, rfl⟩
    · cases h

theorem effect_of_work {u : υ} (h : step p s (.work u) = some s') : Effect p s (.work u) s' := by
  simp only [step] at h
  split at h
  · rename_i t ht
    obtain ⟨out, hout, h⟩ := Option.bind_eq_some_iff.mp h
    obtain ⟨-, -, -, hlength⟩ := workerCaller_eq_some.mp hout
    obtain ⟨server, hserver, h⟩ := Option.bind_eq_some_iff.mp h
    obtain ⟨⟨b, l⟩, hsend, rfl⟩ := Option.map_eq_some_iff.mp h
    have hrespond : RequestServer.respondTo p.rpcFuncs (s.server.worker u) =
        some [(t.handle, out)] := by
      rw [ht, RequestServer.respondTo, hout, Option.map_some]
    have hs := hserver
    simp only [RequestServer.step, hrespond, Option.bind_some] at hs
    obtain ⟨r, -, rfl⟩ := Option.map_eq_some_iff.mp hs
    exact .execute u t out _ b l ht hrespond hlength hserver rfl rfl hsend
  · rename_i hother
    obtain ⟨server, hserver, rfl⟩ := Option.map_eq_some_iff.mp h
    have hsilent : RequestServer.respondTo p.rpcFuncs (s.server.worker u) = some [] := by
      unfold RequestServer.respondTo
      split
      · rename_i t ht
        exact absurd ht (hother t)
      · rfl
    obtain ⟨hreceived, hresponses⟩ := server_histories hserver (by simp) fun u' hu => by
      cases hu
      exact hsilent
    exact .server _ _ server hserver hreceived hresponses (Or.inr ⟨u, rfl, rfl⟩)

theorem effect_of_step {a : Action κ ι ω υ} (h : step p s a = some s') : Effect p s a s' := by
  cases a with
  | start i =>
    simp only [step] at h
    split at h
    · cases h
      exact .start i ‹_›
    · cases h
  | register i =>
    simp only [step] at h
    split at h
    · cases h
      exact .register i ‹_›
    · cases h
  | writePackage i =>
    simp only [step] at h
    split at h
    · obtain ⟨⟨b, l⟩, hsend, rfl⟩ := Option.map_eq_some_iff.mp h
      exact .writePackage i b l ‹_› hsend
    · cases h
  | timeOut i =>
    simp only [step] at h
    split at h
    · cases h
      exact .timeOut i _ ‹_›
    · cases h
  | read i =>
    simp only [step] at h
    split at h
    · obtain ⟨buf, hbuf, h⟩ := Option.bind_eq_some_iff.mp h
      obtain ⟨r, hr, rfl⟩ := Option.map_eq_some_iff.mp h
      exact .read i _ buf r ‹_› ‹_› hbuf hr
    · cases h
  | closeConnection k =>
    cases h
    exact .closeConnection k
  | clientWrite k accepted =>
    simp only [step] at h
    split at h
    · cases h
    · obtain ⟨l, hl, rfl⟩ := Option.map_eq_some_iff.mp h
      exact .clientWrite k accepted l hl
  | serverRead k arrived =>
    obtain ⟨l, hl, rfl⟩ := Option.map_eq_some_iff.mp h
    exact .serverRead k arrived l hl
  | serverWrite k accepted =>
    obtain ⟨l, hl, rfl⟩ := Option.map_eq_some_iff.mp h
    exact .serverWrite k accepted l hl
  | clientRead k arrived =>
    simp only [step] at h
    split at h
    · cases h
    · obtain ⟨l, hl, rfl⟩ := Option.map_eq_some_iff.mp h
      exact .clientRead k arrived l hl
  | readPackage w =>
    simp only [step] at h
    split at h
    · rename_i k hk
      obtain ⟨x, hx, h⟩ := Option.bind_eq_some_iff.mp h
      obtain ⟨server, hserver, rfl⟩ := Option.map_eq_some_iff.mp h
      simp only [RequestServer.step, hk, Option.some.injEq] at hserver
      subst hserver
      exact .readPackage w k x hk hx
    · cases h
  | work u => exact effect_of_work h
  | server a =>
    simp only [step] at h
    split at h
    · cases h
    · cases h
    · rename_i hread hwork
      obtain ⟨server, hserver, rfl⟩ := Option.map_eq_some_iff.mp h
      obtain ⟨hreceived, hresponses⟩ := server_histories hserver (fun w buf ha => hread w buf ha)
        fun u hu => absurd hu (hwork u)
      exact .server _ _ server hserver hreceived hresponses (Or.inl rfl)
  | responseTag k =>
    simp only [step] at h
    split at h
    · obtain ⟨x, hx, rfl⟩ := Option.map_eq_some_iff.mp h
      exact .responseTag k x ‹_› hx
    · cases h
  | write k =>
    simp only [step] at h
    split at h
    · obtain ⟨handle, hhandle, h⟩ := Option.bind_eq_some_iff.mp h
      obtain ⟨r, hr, rfl⟩ := Option.map_eq_some_iff.mp h
      exact .write k _ _ handle r ‹_› hhandle hr
    · cases h

end Effect

/-! ## The parts -/

/-- A connection takes a step by itself, or none. -/
def LinkMove (l l' : Link) : Prop := l' = l ∨ ∃ a, l.Allowed a ∧ l.step a = some l'

omit [DecidableEq ι] in
theorem linkMove_update {links : κ → Link} {k : κ} {l : Link} (h : LinkMove (links k) l) (j : κ) :
    LinkMove (links j) (Function.update links k l j) := by
  by_cases hj : j = k
  · subst hj
    rw [Function.update_self]
    exact h
  · rw [Function.update_of_ne hj]
    exact Or.inl rfl

variable [DecidableEq ω] [DecidableEq υ] {p : Program κ ι} {s s' : Rpc κ ι ω υ}

/-- In each step, the parts take steps of their own. -/
theorem parts_of_step {a : Action κ ι ω υ} (hok : s.Within p a) (h : step p s a = some s') :
    (∀ k, LinkMove (s.requests k) (s'.requests k)) ∧
      (∀ k, LinkMove (s.responses k) (s'.responses k)) ∧
      (s'.server = s.server ∨ ∃ b, s.server.step p.rpcFuncs b = some s'.server) := by
  have hsame : ∀ links : κ → Link, ∀ k, LinkMove (links k) (links k) := fun _ _ => Or.inl rfl
  cases effect_of_step h with
  | start | register | timeOut | read | closeConnection | responseTag | write =>
    exact ⟨hsame _, hsame _, Or.inl rfl⟩
  | writePackage i b l _ hsend =>
    exact ⟨linkMove_update (Link.send_step hsend hok), hsame _, Or.inl rfl⟩
  | clientWrite k accepted l hl =>
    exact ⟨linkMove_update (Or.inr ⟨.writeTurn accepted, hok, hl⟩), hsame _, Or.inl rfl⟩
  | serverRead k arrived l hl =>
    exact ⟨linkMove_update (Or.inr ⟨.readSocket arrived, hok, hl⟩), hsame _, Or.inl rfl⟩
  | serverWrite k accepted l hl =>
    exact ⟨hsame _, linkMove_update (Or.inr ⟨.writeTurn accepted, hok, hl⟩), Or.inl rfl⟩
  | clientRead k arrived l hl =>
    exact ⟨hsame _, linkMove_update (Or.inr ⟨.readSocket arrived, hok, hl⟩), Or.inl rfl⟩
  | readPackage w k x hk hx =>
    refine ⟨hsame _, hsame _, Or.inr ⟨.readPackage w x.bytes, ?_⟩⟩
    simp only [RequestServer.step, hk]
  | execute u t out server b l ht hrespond _ hserver _ _ hsend =>
    refine ⟨hsame _, linkMove_update (Link.send_step hsend ?_), Or.inr ⟨_, hserver⟩⟩
    have htakes : ∀ x ∈ (RequestServer.respondTo p.rpcFuncs (s.server.worker u)).getD [],
        (s.responses x.1).Takes x.2 := hok.2
    rw [hrespond] at htakes
    exact htakes _ (List.mem_singleton.mpr rfl)
  | server a b server hserver => exact ⟨hsame _, hsame _, Or.inr ⟨_, hserver⟩⟩

variable [Fintype ω] [Fintype υ]

/-- What holds of the parts in every run. -/
structure Parts (p : Program κ ι) (s : Rpc κ ι ω υ) : Prop where
  requests : ∀ k, (s.requests k).Inv
  responses : ∀ k, (s.responses k).Inv
  server : s.server.Inv p.rpcFuncs
  answers : s.server.FromReceived p.rpcFuncs

omit [Fintype ω] [Fintype υ] in
theorem server_of_reachable {fd : κ → Int} {clientCache serverCache : Int}
    (h : ReachableIf (step p) (Within p) (new fd clientCache serverCache) s) :
    Reachable (RequestServer.step p.rpcFuncs) RequestServer.new s.server := by
  refine ReachableIf.component Rpc.server (fun s a s' hok hs => ?_) h
  rcases (parts_of_step hok hs).2.2 with hsame | ⟨b, hb⟩
  · exact Or.inl hsame
  · exact Or.inr ⟨b, trivial, hb⟩

theorem parts_of_reachable {fd : κ → Int} {clientCache serverCache : Int}
    (h : ReachableIf (step p) (Within p) (new fd clientCache serverCache) s) : s.Parts p := by
  have hserver := server_of_reachable h
  have hrequests : ∀ k, ReachableIf Link.step Link.Allowed (.new clientCache serverCache)
      (s.requests k) := fun k =>
    ReachableIf.component (fun s : Rpc κ ι ω υ => s.requests k)
      (fun s a s' hok hs => (parts_of_step hok hs).1 k) h
  have hresponses : ∀ k, ReachableIf Link.step Link.Allowed (.new serverCache clientCache)
      (s.responses k) := fun k =>
    ReachableIf.component (fun s : Rpc κ ι ω υ => s.responses k)
      (fun s a s' hok hs => (parts_of_step hok hs).2.1 k) h
  have hlink : ∀ {a b : Int} {l : Link}, ReachableIf Link.step Link.Allowed (.new a b) l → l.Inv :=
    fun hl => (hl.invariant_enabled (Link.inv_new _ _) fun _ _ hs ha => hs.step ha).1
  exact ⟨fun k => hlink (hrequests k), fun k => hlink (hresponses k),
    hserver.invariant RequestServer.inv_new fun _ _ _ hi _ hs => hi.step (agreeing_merge _) hs,
    hserver.invariant RequestServer.fromReceived_new fun _ _ _ hi _ hs => hi.step hs⟩

end Step

end Rpc

end CppRpc
