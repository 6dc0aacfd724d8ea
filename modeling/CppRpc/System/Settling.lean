import CppRpc.Server.Progress
import CppRpc.System.RoundTrip

/-!
# What has been sent comes to an end

The clients and the server once nobody calls, times out or hangs up any more.
`Carries` are the steps that carry the requests and the responses under way on,
in any order and with the bytes cut in any way.

`settles_of_reachable` is the result.  There are at most `effort` such steps.
Where none is left, nothing is under way on a connection that the client has not
closed, every request has been executed as often as it was written, and no call
waits for a response, unless the server's cache refused it.

It rests on two conditions.  `ResponsesFit`: the response to a call is not empty
and no longer than its request, in whose bytes it is written.  `HasRoom`: an
empty cache takes the longest response, and the client's has room for it beside
a block.
-/

namespace CppRpc

open CData Proto3 Runs RequestServer BufferCacheBase

/-! ## The sending end -/

namespace Link

variable {l l' : Link} {payload : List UInt8} {b : Bool}

theorem capacity_of_move (h : Rpc.LinkMove l l') :
    l'.sender.capacity = l.sender.capacity ∧ l'.receiver.capacity = l.receiver.capacity := by
  rcases h with rfl | ⟨a, -, hs⟩
  · exact ⟨rfl, rfl⟩
  · exact capacity_of_step hs

theorem Inv.send_of_allowed (h : l.Inv) (ha : l.Allowed (.writePackage payload)) :
    ∃ l', l.send payload = some (true, l') ∧ l'.written = l.written ++ [payload] ∧
      l'.toMove = l.toMove + 2 * (8 + payload.length) := by
  obtain ⟨hp, hroom, -⟩ := ha
  obtain ⟨c', hw, -, hc', -⟩ := h.sender_wf.writePackage_eq hp hroom
  refine ⟨_, by rw [send, hw, Option.map_some], rfl, ?_⟩
  simp only [toMove, hc', List.length_append, encodeFrame_length]
  omega

/-- A package is refused or costs its bytes. -/
theorem Inv.send_cases (h : l.Inv) (ht : l.Takes payload) (hs : l.send payload = some (b, l')) :
    l' = l ∨ l'.written = l.written ++ [payload] ∧
      l'.toMove = l.toMove + 2 * (8 + payload.length) := by
  by_cases ha : l.Allowed (.writePackage payload)
  · obtain ⟨l₁, hs₁, hwritten, hmove⟩ := h.send_of_allowed ha
    cases hs₁.symm.trans hs
    exact Or.inr ⟨hwritten, hmove⟩
  · left
    have hrejected : l.sender.writePackage payload payload.length = some (false, l.sender) := by
      have hfull : l.sender.capacity - l.sender.size < sizeofHeader := ht.resolve_left ha
      unfold BufferCacheBase.writePackage
      dsimp only
      rw [BufferCacheBase.write_rejected l.sender (Or.inr (Or.inr hfull)), Option.bind_some,
        if_pos rfl]
    rw [send, hrejected] at hs
    cases hs
    rfl

/-- What is left to do on a connection of whose packages `taken` have been
taken, at `cost` each. -/
def left (l : Link) (cost taken : Nat) : Nat := l.toMove + cost * (l.written.length - taken)

/-- One more package is taken. -/
theorem Inv.left_succ (h : l.Inv) {taken : Nat} (htaken : taken < l.handed.length) (cost : Nat) :
    l.left cost (taken + 1) + cost = l.left cost taken := by
  obtain ⟨pending, -, hwritten⟩ := h.written_eq
  have hlen : l.written.length - taken = l.written.length - (taken + 1) + 1 := by
    rw [hwritten, List.length_append, List.length_map]
    omega
  rw [left, left, hlen, Nat.mul_succ]
  omega

end Link

/-! ## The conditions -/

/-- The response to a call fits the array of the request, and is not empty. -/
def Program.ResponsesFit {κ ι : Type} (p : Program κ ι) : Prop :=
  ∀ i, ResponseFits p.rpcFuncs (p.call i).request ∧
    ∀ out ∈ workerCaller p.rpcFuncs (p.call i).method (p.call i).request, out ≠ []

/-- A response finds room: in the server's cache when it is empty, and beside a
block in the client's. -/
structure HasRoom (clientCache serverCache : Int) : Prop where
  server : 8 + (BLOCK : Int) < (BufferCacheBase.new serverCache).capacity
  client : 8 + (BLOCK : Int) + BLOCK_SIZE ≤ (BufferCacheBase.new clientCache).capacity

/-! ## The steps -/

namespace Rpc

variable {κ ι ω υ : Type}

/-- `read_package` of the server would find a package. -/
def Waiting (s : Rpc κ ι ω υ) (k : κ) : Prop := s.taken k < (s.requests k).handed.length

instance (s : Rpc κ ι ω υ) : DecidablePred s.Waiting := fun _ =>
  inferInstanceAs (Decidable (_ < _))

/-- The step carries a request or a response on. -/
def Carries (p : Program κ ι) (s : Rpc κ ι ω υ) (a : Action κ ι ω υ) : Prop :=
  s.Within p a ∧
    match a with
    | .clientWrite _ accepted | .serverWrite _ accepted => 0 < accepted
    | .serverRead _ _ | .clientRead _ _ | .readPackage _ | .work _ | .responseTag _ | .write _ =>
        True
    | .server b => s.server.Carries s.Waiting b
    | .start _ | .register _ | .writePackage _ | .timeOut _ | .read _ | .closeConnection _ => False

instance (p : Program κ ι) (s : Rpc κ ι ω υ) : DecidablePred (s.Carries p) := fun a =>
  match a with
  | .clientWrite _ accepted | .serverWrite _ accepted =>
      inferInstanceAs (Decidable (_ ∧ 0 < accepted))
  | .serverRead _ _ | .clientRead _ _ | .readPackage _ | .work _ | .responseTag _ | .write _ =>
      inferInstanceAs (Decidable (_ ∧ True))
  | .server b => inferInstanceAs (Decidable (_ ∧ s.server.Carries s.Waiting b))
  | .start _ | .register _ | .writePackage _ | .timeOut _ | .read _ | .closeConnection _ =>
      inferInstanceAs (Decidable (_ ∧ False))

/-- What a response costs from the worker on: its frame is moved twice, and it
goes through `response_tag` and `ResponseHandle::write`. -/
def responseCost : Nat := 2 * (8 + BLOCK) + 2

/-- What a request costs from `read_package` on, with the workers of epoll that
come for it in vain. -/
def requestCost (ω : Type) [Fintype ω] : Nat := 16 + responseCost + 2 * Fintype.card ω

section Effort

variable [Fintype ω]

/-- What is left to do for a connection. -/
def onWay (s : Rpc κ ι ω υ) (k : κ) : Nat :=
  (s.requests k).left (requestCost ω) (s.taken k) + (s.responses k).left 2 (s.matched k) +
    (s.delivering k).toList.length

variable [Fintype κ] [Fintype υ]

/-- What is left to do. -/
def effort (s : Rpc κ ι ω υ) : Nat :=
  ∑ k, s.onWay k + s.server.effort s.Waiting responseCost

/-- A step on one connection. -/
theorem effort_lt [DecidableEq κ] {s s' : Rpc κ ι ω υ} (k : κ)
    (hother : ∀ j, j ≠ k → s'.onWay j = s.onWay j)
    (hk : s'.onWay k + s'.server.effort s'.Waiting responseCost <
      s.onWay k + s.server.effort s.Waiting responseCost) : s'.effort < s.effort := by
  have hsum := sum_add_of_ne k hother
  unfold effort
  omega

theorem effort_setRequests [DecidableEq κ] {s : Rpc κ ι ω υ} {k : κ} {l : Link}
    (hmove : l.toMove < (s.requests k).toMove) (hwritten : l.written = (s.requests k).written)
    (hhanded : ∃ more, l.handed = (s.requests k).handed ++ more) :
    (s.setRequests k l).effort < s.effort := by
  refine effort_lt k (fun j hj => ?_) (Nat.add_lt_add_of_lt_of_le ?_ ?_)
  · simp only [onWay, setRequests, Function.update_of_ne hj]
  · simp only [onWay, setRequests, Function.update_self, Link.left, hwritten]
    omega
  · apply RequestServer.effort_mono
    intro j hj
    obtain ⟨more, hmore⟩ := hhanded
    dsimp only [Waiting, setRequests] at hj ⊢
    by_cases hjk : j = k
    · subst hjk
      rw [Function.update_self, hmore, List.length_append]
      exact Nat.lt_add_right _ hj
    · rw [Function.update_of_ne hjk]
      exact hj

theorem effort_setResponses [DecidableEq κ] {s : Rpc κ ι ω υ} {k : κ} {l : Link}
    (hmove : l.toMove < (s.responses k).toMove) (hwritten : l.written = (s.responses k).written) :
    (s.setResponses k l).effort < s.effort := by
  refine effort_lt k (fun j hj => ?_) (Nat.add_lt_add_of_lt_of_le ?_ (Nat.le_refl _))
  · simp only [onWay, setResponses, Function.update_of_ne hj]
  · simp only [onWay, setResponses, Function.update_self, Link.left, hwritten]
    omega

end Effort

section Step

variable [DecidableEq κ] [DecidableEq ι] [DecidableEq ω] [DecidableEq υ] [Fintype ω] [Fintype υ]
  {p : Program κ ι} {fd : κ → Int} {clientCache serverCache : Int} {s s' : Rpc κ ι ω υ}

omit [Fintype ω] [Fintype υ] in
theorem lively_of_reachable
    (h : ReachableIf (step p) (Within p) (new fd clientCache serverCache) s) : s.server.Lively :=
  (server_of_reachable h).invariant lively_new fun _ _ _ hi _ hs => hi.step hs

omit [Fintype ω] [Fintype υ] in
theorem capacity_of_reachable
    (h : ReachableIf (step p) (Within p) (new fd clientCache serverCache) s) (k : κ) :
    (s.responses k).sender.capacity = (BufferCacheBase.new serverCache).capacity ∧
      (s.responses k).receiver.capacity = (BufferCacheBase.new clientCache).capacity := by
  refine h.invariant (P := fun s : Rpc κ ι ω υ =>
    (s.responses k).sender.capacity = (BufferCacheBase.new serverCache).capacity ∧
      (s.responses k).receiver.capacity = (BufferCacheBase.new clientCache).capacity) ⟨rfl, rfl⟩ ?_
  intro s a s' hs hok hstep
  obtain ⟨hsender, hreceiver⟩ := Link.capacity_of_move ((parts_of_step hok hstep).2.1 k)
  exact ⟨hsender.trans hs.1, hreceiver.trans hs.2⟩

/-- Each step that carries something on takes the effort down. -/
theorem effort_of_carries [Fintype κ] (hdistinct : p.DistinctTags)
    (h : ReachableIf (step p) (Within p) (new fd clientCache serverCache) s) {a : Action κ ι ω υ}
    (ha : s.Carries p a) (hs : step p s a = some s') : s'.effort < s.effort := by
  have hparts := parts_of_reachable h
  have hlively := lively_of_reachable h
  cases effect_of_step hs with
  | start | register | writePackage | timeOut | read | closeConnection => exact ha.2.elim
  | clientWrite k n l hl =>
    obtain ⟨-, hmove⟩ := (hparts.requests k).transfer (a := .writeTurn n) ⟨ha.1, ha.2⟩ hl
    obtain ⟨hwritten, hmore⟩ := Link.histories_of_step hl nofun
    exact effort_setRequests hmove hwritten hmore
  | serverRead k n l hl =>
    obtain ⟨-, hmove⟩ := (hparts.requests k).transfer (a := .readSocket n) ⟨ha.1, trivial⟩ hl
    obtain ⟨hwritten, hmore⟩ := Link.histories_of_step hl nofun
    exact effort_setRequests hmove hwritten hmore
  | serverWrite k n l hl =>
    obtain ⟨-, hmove⟩ := (hparts.responses k).transfer (a := .writeTurn n) ⟨ha.1, ha.2⟩ hl
    exact effort_setResponses hmove (Link.histories_of_step hl nofun).1
  | clientRead k n l hl =>
    obtain ⟨-, hmove⟩ := (hparts.responses k).transfer (a := .readSocket n) ⟨ha.1, trivial⟩ hl
    exact effort_setResponses hmove (Link.histories_of_step hl nofun).1
  | readPackage w k x hreading hx =>
    refine effort_lt k (fun j hj => ?_) ?_
    · simp only [onWay, Function.update_of_ne hj]
    · have hleft := (hparts.requests k).left_succ (List.getElem?_eq_some_iff.mp hx).1
        (requestCost ω)
      have hserver := effort_readPackage s.Waiting responseCost hreading x.bytes
        (Waiting { s with taken := Function.update s.taken k (s.taken k + 1) })
      refine lt_of_le_of_lt (Nat.add_le_add_left hserver _) ?_
      simp only [onWay, Function.update_self]
      rw [← hleft, requestCost]
      omega
  | execute u t out server b l ht hrespond hlength hserver hreceived hresponses hsend =>
    have htakes : ∀ x ∈ (RequestServer.respondTo p.rpcFuncs (s.server.worker u)).getD [],
        (s.responses x.1).Takes x.2 := ha.1.2
    rw [hrespond] at htakes
    have htake : (s.responses t.handle).Takes out := htakes _ (List.mem_singleton.mpr rfl)
    have hcases := (hparts.responses t.handle).send_cases htake hsend
    have hshort : out.length ≤ BLOCK := by
      have htraffic := traffic_of_reachable hdistinct (h.step ha.1 hs)
      apply htraffic.short (t.handle, out)
      dsimp only
      rw [hresponses]
      exact List.mem_append_right _ (List.mem_singleton.mpr rfl)
    have hwork := hlively.effort_work s.Waiting responseCost hserver
    have hleft : l.left 2 (s.matched t.handle) ≤
        (s.responses t.handle).left 2 (s.matched t.handle) + responseCost := by
      unfold responseCost
      rcases hcases with rfl | ⟨hwritten, hmove⟩
      · omega
      · rw [Link.left, Link.left, hwritten, hmove, List.length_append, List.length_singleton]
        omega
    rw [ht] at hwork
    refine effort_lt t.handle (fun j hj => ?_) ?_
    · simp only [onWay, setResponses, Function.update_of_ne hj]
    · have hends : (Worker.executing (some t)).ends.length = 1 := rfl
      rw [hends, Nat.mul_one] at hwork
      have hway : ∀ dropped, onWay { s.setResponses t.handle l with server, dropped } t.handle ≤
          s.onWay t.handle + responseCost := by
        intro dropped
        simp only [onWay, setResponses, Function.update_self]
        omega
      refine lt_of_le_of_lt (Nat.add_le_add_right (hway _) _) ?_
      show _ + server.effort s.Waiting responseCost < _
      omega
  | server a b server hserver hreceived hresponses hab =>
    have hcarries : s.server.Carries s.Waiting b := by
      rcases hab with rfl | ⟨u, -, rfl⟩
      · exact ha.2
      · trivial
    exact Nat.add_lt_add_left (hlively.effort_carries _ _ hcarries hserver) _
  | responseTag k x hnone hx =>
    refine effort_lt k (fun j hj => ?_) (Nat.add_lt_add_of_lt_of_le ?_ (Nat.le_refl _))
    · simp only [onWay, Function.update_of_ne hj]
    · have hleft := (hparts.responses k).left_succ (List.getElem?_eq_some_iff.mp hx).1 2
      have hone : ∀ o : Option (ι × List UInt8), o.toList.length ≤ 1 := by
        intro o
        cases o with
        | none => exact Nat.zero_le _
        | some x => exact Nat.le_refl _
      simp only [onWay, Function.update_self]
      have := hone ((s.responseHandles k (tagOfResponse p.strHash x.bytes)).map fun i =>
        (i, x.bytes))
      omega
  | write k i buf handle r hd hhandle hr =>
    refine effort_lt k (fun j hj => ?_) (Nat.add_lt_add_of_lt_of_le ?_ (Nat.le_refl _))
    · simp only [onWay, setHandle, Function.update_of_ne hj]
    · simp only [onWay, setHandle, Function.update_self, hd]
      exact Nat.lt_succ_self _

/-! ## At rest -/

omit [Fintype ω] [Fintype υ] in
/-- Nothing can be carried on. -/
def AtRest (p : Program κ ι) (s : Rpc κ ι ω υ) : Prop := Runs.AtRest (step p) (Carries p) s

theorem AtRest.sender_eq_nil (h : s.AtRest p) (hparts : s.Parts p) (k : κ) :
    (s.responses k).sender.contents = [] := by
  by_contra hne
  have hpos := List.length_pos_iff.mpr hne
  have hsize := (hparts.responses k).sender_wf.size_eq
  have hblock : BLOCK_SIZE = 2048 := rfl
  have hallowed : (s.responses k).Allowed (.writeTurn 1) := ⟨by omega, by omega⟩
  obtain ⟨l, hl, -⟩ := (hparts.responses k).step hallowed
  have hnone := h (.serverWrite k 1) ⟨hallowed, Nat.one_pos⟩
  rw [step, hl] at hnone
  cases hnone

theorem AtRest.requests (h : s.AtRest p) (hparts : s.Parts p) {k : κ} (hfd : 0 ≤ s.fd k) :
    (s.requests k).toMove = 0 := by
  by_contra hne
  obtain ⟨a, ha⟩ := (hparts.requests k).exists_carries_iff.mpr hne
  obtain ⟨l, hl, -⟩ := (hparts.requests k).step ha.1
  cases a with
  | writePackage payload => exact ha.2
  | writeTurn n =>
    have hnone := h (.clientWrite k n) ⟨ha.1, ha.2⟩
    rw [step, if_neg (Int.not_lt.mpr hfd), hl] at hnone
    cases hnone
  | readSocket n =>
    have hnone := h (.serverRead k n) ⟨ha.1, trivial⟩
    rw [step, hl] at hnone
    cases hnone

theorem AtRest.responses (h : s.AtRest p) (hparts : s.Parts p) {k : κ} (hfd : 0 ≤ s.fd k) :
    (s.responses k).toMove = 0 := by
  by_contra hne
  obtain ⟨a, ha⟩ := (hparts.responses k).exists_carries_iff.mpr hne
  obtain ⟨l, hl, -⟩ := (hparts.responses k).step ha.1
  cases a with
  | writePackage payload => exact ha.2
  | writeTurn n =>
    have hnone := h (.serverWrite k n) ⟨ha.1, ha.2⟩
    rw [step, hl] at hnone
    cases hnone
  | readSocket n =>
    have hnone := h (.clientRead k n) ⟨ha.1, trivial⟩
    rw [step, if_neg (Int.not_lt.mpr hfd), hl] at hnone
    cases hnone

omit [Fintype ω] [Fintype υ] in
/-- A worker of epoll goes on until it has read everything. -/
theorem AtRest.readers (h : s.AtRest p) (w : ω) : s.server.readers w = .outside := by
  cases hr : s.server.readers w with
  | outside => rfl
  | reading k =>
    exfalso
    by_cases hk : s.Waiting k
    · have hnone := h (.readPackage w) ⟨trivial, trivial⟩
      simp [step, RequestServer.step, hr, List.getElem?_eq_getElem hk] at hnone
    · have hread : (s.server.readers w).HasRead s.Waiting := by
        rw [hr]
        exact hk
      have hnone := h (.server (.readEnd w)) ⟨trivial, hread⟩
      simp [step, RequestServer.step, hr] at hnone
  | handling k buf =>
    have hnone := h (.server (.handleRequest w)) ⟨trivial, trivial⟩
    simp only [step, RequestServer.step, hr] at hnone
    split at hnone <;> cases hnone
  | pushing t =>
    have hnone := h (.server (.push w)) ⟨trivial, trivial⟩
    simp [step, RequestServer.step, hr] at hnone
  | notifying k =>
    have hnone := h (.server (.notify w)) ⟨trivial, trivial⟩
    simp [step, RequestServer.step, hr] at hnone

omit [Fintype ω] [Fintype υ] in
theorem AtRest.not_waiting [Nonempty ω] (h : s.AtRest p) (k : κ) : ¬ s.Waiting k := by
  intro hk
  obtain ⟨w⟩ := ‹Nonempty ω›
  have hnone := h (.server (.readStart w k)) ⟨trivial, hk⟩
  simp [step, RequestServer.step, h.readers w] at hnone

/-- A worker with a task writes its response. -/
theorem AtRest.not_executing (hrest : s.AtRest p) (hdistinct : p.DistinctTags)
    (hfit : p.ResponsesFit) (hroom : HasRoom clientCache serverCache)
    (h : ReachableIf (step p) (Within p) (new fd clientCache serverCache) s) (u : υ)
    (t : WorkerCaller κ) : s.server.worker u ≠ .executing (some t) := by
  intro ht
  have hparts := parts_of_reachable h
  have htraffic := traffic_of_reachable hdistinct h
  have hstep : (s.server.worker u).step s.server.pool = some (.finishing, s.server.pool) := by
    rw [ht]
    rfl
  have hends : t ∈ (s.server.worker u).ends := by
    rw [ht]
    exact List.mem_singleton.mpr rfl
  -- The task is a call, and there is a function for it.
  obtain ⟨hreceived, hfunc⟩ := hparts.answers.ends hstep t hends
  obtain ⟨i, hclient, hrequest, -⟩ := htraffic.request_of hparts.requests hreceived
  have hmethod : (p.call i).method = t.func := by
    rw [hfunc, ← hrequest]
    exact (congrArg Prod.fst (p.call i).pairOf_request).symm
  have hbounds := inBounds_of_reachable hdistinct (fun i => (hfit i).1) h u
  rw [ht, RequestServer.respondTo, Option.isSome_map] at hbounds
  obtain ⟨out, hout⟩ := Option.isSome_iff_exists.mp hbounds
  have hlength : out.length ≤ t.ptr.length := by
    obtain ⟨-, -, -, hle⟩ := workerCaller_eq_some.mp hout
    exact hle
  have hne := (hfit i).2
  rw [hmethod, hrequest] at hne
  replace hne := hne out hout
  -- The cache is empty and takes it.
  have hallowed : (s.responses t.handle).Allowed (.writePackage out) := by
    obtain ⟨hsender, hreceiver⟩ := capacity_of_reachable h t.handle
    have hsize := (hparts.responses t.handle).sender_wf.size_eq
    have hblock := (p.call i).length_request_le
    rw [hrequest] at hblock
    rw [hrest.sender_eq_nil hparts, List.length_nil] at hsize
    have hserver := hroom.server
    have hclient := hroom.client
    refine ⟨hne, ?_, ?_⟩ <;> omega
  obtain ⟨l, hsend, -⟩ := (hparts.responses t.handle).send_of_allowed hallowed
  have hrespond : RequestServer.respondTo p.rpcFuncs (s.server.worker u) =
      some [(t.handle, out)] := by
    rw [ht, RequestServer.respondTo, hout, Option.map_some]
  have hwithin : s.Within p (.work u) := by
    refine ⟨by rw [hrespond]; rfl, ?_⟩
    rw [hrespond]
    intro x hx
    rw [List.mem_singleton.mp hx]
    exact Or.inl hallowed
  have hnone := hrest (.work u) ⟨hwithin, trivial⟩
  simp only [step, ht, hout, Option.bind_some, RequestServer.step] at hnone
  rw [← ht, hrespond, hstep] at hnone
  simp [hsend] at hnone

/-- Where nothing can be carried on, nothing is under way. -/
theorem AtRest.quiet [Nonempty ω] [Nonempty υ] (hrest : s.AtRest p) (hdistinct : p.DistinctTags)
    (hfit : p.ResponsesFit) (hroom : HasRoom clientCache serverCache)
    (h : ReachableIf (step p) (Within p) (new fd clientCache serverCache) s) {k : κ}
    (hfd : 0 ≤ s.fd k) : s.Quiet k := by
  have hparts := parts_of_reachable h
  have hmatching := matching_of_reachable hdistinct h
  have hstill : ∀ u, (s.server.worker u).step s.server.pool = none := by
    intro u
    have hother := hrest.not_executing hdistinct hfit hroom h u
    have hsilent : RequestServer.respondTo p.rpcFuncs (s.server.worker u) = some [] := by
      unfold RequestServer.respondTo
      split
      · rename_i t ht
        exact absurd ht (hother t)
      · rfl
    have hwithin : s.Within p (.work u) := by
      refine ⟨by rw [hsilent]; rfl, ?_⟩
      rw [hsilent]
      exact fun x hx => absurd hx List.not_mem_nil
    have hnone := hrest (.work u) ⟨hwithin, trivial⟩
    simp only [step, RequestServer.step, hsilent, Option.bind_some] at hnone
    simpa using hnone
  have howes : ¬ s.server.Owes := by
    rintro ⟨w, c, hw⟩
    rw [hrest.readers w] at hw
    cases hw
  obtain ⟨htasks, hblocked⟩ := (lively_of_reachable h).asleep howes hstill
  have hdelivering : s.delivering k = none := by
    by_contra hne
    have hsome := isSome_write hdistinct h hne
    rw [hrest (.write k) ⟨trivial, trivial⟩] at hsome
    cases hsome
  refine ⟨?_, ?_, ?_, ?_, hdelivering, htasks, fun u => ?_, hrest.readers⟩
  · rw [(hparts.requests k).bytes_eq_nil_iff, ← (hparts.requests k).toMove_eq_zero_iff]
    exact hrest.requests hparts hfd
  · rw [(hparts.responses k).bytes_eq_nil_iff, ← (hparts.responses k).toMove_eq_zero_iff]
    exact hrest.responses hparts hfd
  · have hle := (traffic_of_reachable hdistinct h).taken_le k
    exact Nat.le_antisymm hle (Nat.not_lt.mp (hrest.not_waiting k))
  · by_contra hne
    have hlt := Nat.lt_of_le_of_ne (hmatching.matched_le k) hne
    have hnone := hrest (.responseTag k) ⟨trivial, trivial⟩
    simp [step, hdelivering, List.getElem?_eq_getElem hlt] at hnone
  · rw [hblocked u]
    exact ⟨rfl, rfl⟩

/-! ## The result -/

/-- The call has been executed as often as its request was written, and its
response is not waited for unless `write_package` refused one. -/
structure Done (p : Program κ ι) (s : Rpc κ ι ω υ) (i : ι) : Prop where
  quiet : s.Quiet (p.client i)
  executions : (p.rpcFuncs (p.call i).method).isSome → executions p s i = s.writes i
  response : (p.rpcFuncs (p.call i).method).isSome → s.dropped (p.client i) = [] →
    0 < s.writes i → ∃ handle ∈ s.handles i, handle.state ≠ .S_WAITING

/-- From every state of every run, the system comes to rest when nobody calls any
more, however its steps interleave, and then every call is done whose client has
not hung up. -/
theorem settles_of_reachable [Fintype κ] [Nonempty ω] [Nonempty υ] (hdistinct : p.DistinctTags)
    (hfit : p.ResponsesFit) (hroom : HasRoom clientCache serverCache)
    (h : ReachableIf (step p) (Within p) (new fd clientCache serverCache) s) :
    Settles (step p) (Carries p) s.effort (fun s' => ∀ i, 0 ≤ s'.fd (p.client i) → Done p s' i)
      s := by
  refine settles_of_rank
    (fun s => ReachableIf (step p) (Within p) (new fd clientCache serverCache) s) effort ?_ ?_ h
  · exact fun s a s' hs ha hstep => ⟨hs.step ha.1 hstep, effort_of_carries hdistinct hs ha hstep⟩
  · intro s' hs hrest i hfd
    have hquiet := AtRest.quiet hrest hdistinct hfit hroom hs hfd
    exact ⟨hquiet, (traffic_of_reachable hdistinct hs).executions_eq (parts_of_reachable hs) hquiet,
      exists_response_of_quiet hdistinct hs hquiet⟩

end Step

theorem responsesFit_twoCalls : twoCalls.ResponsesFit := by
  unfold Program.ResponsesFit
  decide +kernel

/-- One request is in the server's cache and the other one still at the client. -/
theorem settles_of_reachable_two_calls : ∃ s : Rpc (Fin 1) (Fin 2) (Fin 1) (Fin 1),
    (s.writes 0 = 1 ∧ s.writes 1 = 1 ∧ executions twoCalls s 0 = 0 ∧ s.fd 0 = 3) ∧
      Settles (step twoCalls) (Carries twoCalls) s.effort
        (fun s' => ∀ i, 0 ≤ s'.fd (twoCalls.client i) → Done twoCalls s' i) s := by
  obtain ⟨s, hs, hP⟩ : ∃ s : Rpc (Fin 1) (Fin 2) (Fin 1) (Fin 1),
      ReachableIf (step twoCalls) (Within twoCalls) (new (fun _ => 3) 4096 4096) s ∧
        (s.writes 0 = 1 ∧ s.writes 1 = 1 ∧ executions twoCalls s 0 = 0 ∧ s.fd 0 = 3) :=
    exists_reachable_of_run
      [.start 0, .register 0, .writePackage 0, .start 1, .register 1, .writePackage 1,
        .clientWrite 0 30, .serverRead 0 25]
      (by decide +kernel)
  exact ⟨s, hP, settles_of_reachable distinctTags_twoCalls responsesFit_twoCalls
    ⟨by decide +kernel, by decide +kernel⟩ hs⟩

end Rpc

end CppRpc
