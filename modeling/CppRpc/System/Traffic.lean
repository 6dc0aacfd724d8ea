import CppRpc.System.Rpc

/-!
# What is under way between the clients and the server

The invariant of the connections and of the server's end: the payloads on a
connection are requests of calls of its client, each as often as `write_package`
took it; what `read_package` returns is what was handed over, in this order; and
each response has been written to its connection, or was refused there.

`Traffic.response_of` is what the client's end needs: whatever response has the
tag of a call is what the server's function wrote for the request of this call.
`executions_le` and `executions_of_quiet` count the executions of a call.
-/

namespace CppRpc

open CData Proto3 Runs RequestServer

namespace Program

variable {κ ι : Type} {p : Program κ ι}

theorem DistinctTags.eq_of_pair (h : p.DistinctTags) {i j : ι} (hclient : p.client i = p.client j)
    (hpair : (p.call i).pair = (p.call j).pair) : i = j := by
  apply h i j hclient
  obtain ⟨hmethod, hqueryId⟩ := Prod.mk.inj hpair
  rw [tag, tag, StubCall.tag, StubCall.tag, hmethod, Value.int32.inj hqueryId]

end Program

/-- What a call at this place has for its handle. -/
def RpcStage.Holds (handle : Option ResponseHandle) : RpcStage → Prop
  | .idle | .registering => handle = none
  | .writing | .waiting | .returned _ => handle ≠ none
  | .thrown _ => True

theorem RpcStage.Holds.of_some {handle : ResponseHandle} {stage : RpcStage}
    (h : stage.Holds (some handle)) (handle' : ResponseHandle) : stage.Holds (some handle') := by
  cases stage with
  | idle | registering => cases h
  | writing | waiting | returned => exact nofun
  | thrown => trivial

/-- How often `write_package` has taken the request, without the loop. -/
def RpcStage.writes : RpcStage → Nat
  | .waiting | .returned _ | .thrown .S_TIME_OUT => 1
  | _ => 0

namespace Rpc

variable {κ ι ω υ : Type} [DecidableEq κ]

/-- The invariant. -/
structure Traffic (p : Program κ ι) (s : Rpc κ ι ω υ) : Prop where
  written : ∀ k, ∀ buf ∈ (s.requests k).written,
    ∃ i, p.client i = k ∧ (p.call i).request = buf ∧ s.handles i ≠ none
  counted : ∀ i, Multiset.count (p.call i).pair
    ((s.requests (p.client i)).written.map pairOf : List (Value × Value)) = s.writes i
  received : ∀ k, (s.server.received.filter (·.1 = k)).map Prod.snd =
    ((s.requests k).handed.take (s.taken k)).map Payload.bytes
  taken_le : ∀ k, s.taken k ≤ (s.requests k).handed.length
  responded : ∀ k, ((s.responses k).written : Multiset (List UInt8)) + s.dropped k =
    ((s.server.responses.filter (·.1 = k)).map Prod.snd : List (List UInt8))
  short : ∀ x ∈ s.server.responses, x.2.length ≤ BLOCK
  holds : ∀ i, (s.stage i).Holds (s.handles i)
  once : p.resends = false → ∀ i, s.writes i = (s.stage i).writes

variable {p : Program κ ι} {s s' : Rpc κ ι ω υ}

theorem traffic_new (fd : κ → Int) (clientCache serverCache : Int) :
    Traffic p (new fd clientCache serverCache : Rpc κ ι ω υ) :=
  ⟨fun _ _ hbuf => absurd hbuf List.not_mem_nil, fun _ => rfl, fun _ => rfl, fun _ => Nat.le_refl _,
    fun _ => rfl, fun _ hx => absurd hx List.not_mem_nil, fun _ => rfl, fun _ _ => rfl⟩

/-! ## Requests and responses -/

theorem mem_filter_map {frames : List (OnConnection κ)} {k : κ} {buf : List UInt8} :
    buf ∈ (frames.filter (·.1 = k)).map Prod.snd ↔ (k, buf) ∈ frames := by
  simp

/-- Each request that the server received is that of a call. -/
theorem Traffic.request_of (h : s.Traffic p) (hlinks : ∀ k, (s.requests k).Inv) {k : κ}
    {buf : List UInt8} (hbuf : (k, buf) ∈ s.server.received) :
    ∃ i, p.client i = k ∧ (p.call i).request = buf ∧ s.handles i ≠ none := by
  apply h.written k
  rw [← mem_filter_map, h.received k] at hbuf
  obtain ⟨x, hx, rfl⟩ := List.mem_map.mp hbuf
  exact (hlinks k).mem_written (List.mem_of_mem_take hx)

/-- The response that the server's function wrote for the request of a call. -/
structure Answers (p : Program κ ι) (s : Rpc κ ι ω υ) (i : ι) (buf : List UInt8) : Prop where
  caller : workerCaller p.rpcFuncs (p.call i).method (p.call i).request = some buf
  pair : pairOf buf = (p.call i).pair
  mem : (p.client i, buf) ∈ s.server.responses

section Responses

variable [Fintype ω] [Fintype υ]

/-- A response is that of a call. -/
theorem Traffic.answers (h : s.Traffic p) (hparts : s.Parts p) {k : κ} {buf : List UInt8}
    (hbuf : (k, buf) ∈ s.server.responses) :
    ∃ i, p.client i = k ∧ s.handles i ≠ none ∧ Answers p s i buf := by
  obtain ⟨ptr, hptr, hwritten⟩ := hparts.answers.answers _ hbuf
  obtain ⟨i, hclient, rfl, hhandle⟩ := h.request_of hparts.requests hptr
  have hpair := (p.call i).pairOf_request
  have hmethod : methodOf (p.call i).request = (p.call i).method := congrArg Prod.fst hpair
  have hbound : handleRequest (registered p.defs) (p.call i).request =
      some (methodOf (p.call i).request, (p.call i).request) := by
    obtain ⟨rpc, hrpc, -⟩ := workerCaller_eq_some.mp hwritten
    exact if_pos (by rw [show registered p.defs _ = _ from hrpc]; rfl)
  refine ⟨i, hclient, hhandle, ?_,
    (pairOf_workerCaller (agreeing_merge _) hbound hwritten).trans hpair, ?_⟩
  · rw [← hmethod]
    exact hwritten
  · rw [hclient]
    exact hbuf

/-- A response with the tag of a call is that of this call. -/
theorem Traffic.response_of (h : s.Traffic p) (hparts : s.Parts p) (hdistinct : p.DistinctTags)
    {i : ι} {buf : List UInt8} (hbuf : buf ∈ (s.responses (p.client i)).written)
    (htag : tagOfResponse p.strHash buf = p.tag i) :
    s.handles i ≠ none ∧ Answers p s i buf := by
  have hmem : (p.client i, buf) ∈ s.server.responses := by
    rw [← mem_filter_map]
    have hsum : buf ∈ ((s.responses (p.client i)).written : Multiset (List UInt8)) +
        s.dropped (p.client i) := Multiset.mem_add.mpr (Or.inl hbuf)
    rw [h.responded] at hsum
    exact hsum
  obtain ⟨j, hclient, hhandle, hanswers⟩ := h.answers hparts hmem
  have htag' : p.tag j = p.tag i := by
    rw [← htag, (p.call j).tagOfResponse_of_pair hanswers.pair]
    rfl
  obtain rfl := hdistinct j i hclient htag'
  exact ⟨hhandle, hanswers⟩

end Responses

/-! ## The steps -/

/-- A step that neither writes to a connection nor takes a payload off it. -/
theorem Traffic.keep (h : s.Traffic p)
    (hrequests : ∀ k, (s'.requests k).written = (s.requests k).written ∧
      ∃ more, (s'.requests k).handed = (s.requests k).handed ++ more)
    (hresponses : ∀ k, (s'.responses k).written = (s.responses k).written)
    (htaken : s'.taken = s.taken) (hreceived : s'.server.received = s.server.received)
    (hresponded : s'.server.responses = s.server.responses) (hwrites : s'.writes = s.writes)
    (hdropped : s'.dropped = s.dropped) (hhandles : ∀ i, s.handles i ≠ none → s'.handles i ≠ none)
    (hholds : ∀ i, (s'.stage i).Holds (s'.handles i))
    (hstage : ∀ i, (s'.stage i).writes = (s.stage i).writes) : s'.Traffic p := by
  refine ⟨fun k buf hbuf => ?_, fun i => ?_, fun k => ?_, fun k => ?_, fun k => ?_, fun x hx => ?_,
    hholds, fun hresends i => ?_⟩
  · rw [(hrequests k).1] at hbuf
    obtain ⟨i, hclient, hrequest, hhandle⟩ := h.written k buf hbuf
    exact ⟨i, hclient, hrequest, hhandles i hhandle⟩
  · rw [(hrequests _).1, hwrites]
    exact h.counted i
  · obtain ⟨more, hmore⟩ := (hrequests k).2
    rw [hreceived, htaken, hmore, List.take_append_of_le_length (h.taken_le k)]
    exact h.received k
  · obtain ⟨more, hmore⟩ := (hrequests k).2
    have hle := h.taken_le k
    rw [htaken, hmore, List.length_append]
    omega
  · rw [hresponses, hdropped, hresponded]
    exact h.responded k
  · rw [hresponded] at hx
    exact h.short x hx
  · rw [hwrites, hstage]
    exact h.once hresends i

/-- What is taken off a connection is what the server receives. -/
theorem Traffic.readPackage [DecidableEq ω] (h : s.Traffic p) {w : ω} {k : κ} {x : Payload}
    (hx : (s.requests k).handed[s.taken k]? = some x) :
    Traffic p { s with
      server := { s.server with
        readers := Function.update s.server.readers w (.handling k x.bytes)
        received := s.server.received ++ [(k, x.bytes)] }
      taken := Function.update s.taken k (s.taken k + 1) } := by
  refine ⟨h.written, h.counted, fun j => ?_, fun j => ?_, h.responded, h.short, h.holds, h.once⟩
  · dsimp only
    rw [List.filter_append, List.map_append, h.received j]
    by_cases hj : j = k
    · subst hj
      rw [Function.update_self, List.take_add_one, hx, List.map_append, Option.toList_some]
      simp
    · rw [Function.update_of_ne hj]
      simp [Ne.symm hj]
  · dsimp only
    by_cases hj : j = k
    · subst hj
      rw [Function.update_self]
      exact (List.getElem?_eq_some_iff.mp hx).1
    · rw [Function.update_of_ne hj]
      exact h.taken_le j

/-- `write_package` takes the request, or refuses it. -/
theorem Traffic.writePackage [DecidableEq ι] (h : s.Traffic p) (hdistinct : p.DistinctTags)
    {i : ι} {b : Bool} {l : Link} (hstage : s.stage i = .writing)
    (hwritten : l.written = if b then (s.requests (p.client i)).written ++ [(p.call i).request]
      else (s.requests (p.client i)).written)
    (hhanded : l.handed = (s.requests (p.client i)).handed) :
    Traffic p { (s.goto i (Rpc.written p.resends b)).setRequests (p.client i) l with
      writes := if b then Function.update s.writes i (s.writes i + 1) else s.writes } := by
  have hhandle : s.handles i ≠ none := by
    have hholds := h.holds i
    rw [hstage] at hholds
    exact hholds
  have hrequest : ∀ k, (Function.update s.requests (p.client i) l k).handed =
      (s.requests k).handed := by
    intro k
    by_cases hk : k = p.client i
    · subst hk
      rw [Function.update_self, hhanded]
    · rw [Function.update_of_ne hk]
  refine ⟨fun k buf hbuf => ?_, fun j => ?_, fun k => ?_, fun k => ?_, h.responded, h.short,
    fun j => ?_, fun hresends j => ?_⟩
  · dsimp only [setRequests] at hbuf
    by_cases hk : k = p.client i
    · subst hk
      rw [Function.update_self, hwritten] at hbuf
      split at hbuf
      · rcases List.mem_append.mp hbuf with hbuf | hbuf
        · exact h.written _ buf hbuf
        · exact ⟨i, rfl, (List.mem_singleton.mp hbuf).symm, hhandle⟩
      · exact h.written _ buf hbuf
    · rw [Function.update_of_ne hk] at hbuf
      exact h.written k buf hbuf
  · dsimp only [setRequests, goto]
    have hj := h.counted j
    by_cases hclient : p.client j = p.client i
    · rw [hclient] at hj ⊢
      rw [Function.update_self, hwritten]
      cases b with
      | false => exact hj
      | true =>
        rw [if_pos rfl, if_pos rfl, List.map_append, ← Multiset.coe_add, Multiset.count_add, hj,
          List.map_singleton, (p.call i).pairOf_request, Multiset.coe_singleton,
          Multiset.count_singleton]
        by_cases hji : j = i
        · subst hji
          rw [Function.update_self, if_pos rfl]
        · have hpair : (p.call j).pair ≠ (p.call i).pair := fun heq =>
            hji (hdistinct.eq_of_pair hclient heq)
          rw [Function.update_of_ne hji, if_neg hpair, Nat.add_zero]
    · rw [Function.update_of_ne hclient, hj]
      have hji : j ≠ i := fun heq => hclient (by rw [heq])
      split
      · rw [Function.update_of_ne hji]
      · rfl
  · dsimp only [setRequests, goto]
    rw [hrequest]
    exact h.received k
  · dsimp only [setRequests, goto]
    rw [hrequest]
    exact h.taken_le k
  · dsimp only [setRequests, goto]
    by_cases hji : j = i
    · subst hji
      rw [Function.update_self]
      unfold Rpc.written
      split_ifs
      · exact hhandle
      · exact hhandle
      · trivial
    · rw [Function.update_of_ne hji]
      exact h.holds j
  · dsimp only [setRequests, goto]
    have hj := h.once hresends j
    by_cases hji : j = i
    · subst hji
      rw [Function.update_self, Rpc.written, hresends, if_neg Bool.false_ne_true]
      have hzero : s.writes j = 0 := by
        rw [hj, hstage]
        rfl
      cases b with
      | false => exact hzero
      | true =>
        rw [if_pos rfl, if_pos rfl, Function.update_self, hzero]
        rfl
    · rw [Function.update_of_ne hji]
      split
      · rw [Function.update_of_ne hji]
        exact hj
      · exact hj

/-- A worker writes its response to the connection, or loses it. -/
theorem Traffic.execute [Fintype ω] [Fintype υ] [DecidableEq ω] [DecidableEq υ]
    (h : s.Traffic p) (hparts : s.Parts p)
    {u : υ} {t : WorkerCaller κ} {out : List UInt8} {server : RequestServer κ ω υ} {b : Bool}
    {l : Link} (ht : s.server.worker u = .executing (some t)) (hlength : out.length ≤ t.ptr.length)
    (hserver : s.server.step p.rpcFuncs (.work u) = some server)
    (hreceived : server.received = s.server.received)
    (hresponses : server.responses = s.server.responses ++ [(t.handle, out)])
    (hwritten : l.written = if b then (s.responses t.handle).written ++ [out]
      else (s.responses t.handle).written) :
    Traffic p { s.setResponses t.handle l with
      server
      dropped :=
        if b then s.dropped
        else Function.update s.dropped t.handle (s.dropped t.handle ++ [out]) } := by
  refine ⟨h.written, h.counted, fun k => ?_, h.taken_le, fun k => ?_, fun x hx => ?_, h.holds,
    h.once⟩
  · rw [hreceived]
    exact h.received k
  · dsimp only [setResponses]
    have hk := h.responded k
    rw [hresponses, List.filter_append, List.map_append, ← Multiset.coe_add, ← hk]
    by_cases hhandle : k = t.handle
    · subst hhandle
      rw [Function.update_self, hwritten]
      cases b with
      | false =>
        rw [if_neg Bool.false_ne_true, if_neg Bool.false_ne_true, Function.update_self,
          ← Multiset.coe_add, ← add_assoc]
        simp
      | true =>
        simp only [if_true, ← Multiset.coe_add, decide_true, List.filter_cons_of_pos,
          List.filter_nil, List.map_cons, List.map_nil]
        exact add_right_comm _ _ _
    · rw [Function.update_of_ne hhandle]
      have hdropped : (if b then s.dropped
          else Function.update s.dropped t.handle (s.dropped t.handle ++ [out])) k =
          s.dropped k := by
        split
        · rfl
        · exact Function.update_of_ne hhandle ..
      rw [hdropped]
      simp [Ne.symm hhandle]
  · rw [hresponses] at hx
    rcases List.mem_append.mp hx with hx | hx
    · exact h.short x hx
    · obtain ⟨_, _, hwork⟩ := Option.bind_eq_some_iff.mp hserver
      obtain ⟨r, hstep, -⟩ := Option.map_eq_some_iff.mp hwork
      have hknown := hparts.answers.ends hstep t (by rw [ht]; exact List.mem_singleton.mpr rfl)
      obtain ⟨i, -, hrequest, -⟩ := h.request_of hparts.requests hknown.1
      have hblock := (p.call i).length_request_le
      rw [hrequest] at hblock
      rw [List.mem_singleton.mp hx]
      exact hlength.trans hblock

omit [DecidableEq κ] in
theorem forall_goto [DecidableEq ι] {P : ι → RpcStage → Prop} {i : ι} {stage : RpcStage}
    (hi : P i stage) (h : ∀ j, P j (s.stage j)) (j : ι) : P j ((s.goto i stage).stage j) := by
  dsimp only [goto]
  by_cases hj : j = i
  · subst hj
    rw [Function.update_self]
    exact hi
  · rw [Function.update_of_ne hj]
    exact h j

omit [DecidableEq κ] in
theorem forall_setHandle [DecidableEq ι] {P : ι → Option ResponseHandle → Prop} {i : ι}
    {handle : ResponseHandle} (hi : P i (some handle)) (h : ∀ j, P j (s.handles j)) (j : ι) :
    P j ((s.setHandle i handle).handles j) := by
  dsimp only [setHandle]
  by_cases hj : j = i
  · subst hj
    rw [Function.update_self]
    exact hi
  · rw [Function.update_of_ne hj]
    exact h j

/-- A connection that only moves its bytes on. -/
theorem histories_update {links : κ → Link} {k : κ} {l : Link} {a : Link.Action}
    (hl : (links k).step a = some l) (ha : ∀ payload, a ≠ .writePackage payload) (j : κ) :
    (Function.update links k l j).written = (links j).written ∧
      ∃ more, (Function.update links k l j).handed = (links j).handed ++ more := by
  by_cases hj : j = k
  · subst hj
    rw [Function.update_self]
    exact Link.histories_of_step hl ha
  · rw [Function.update_of_ne hj]
    exact ⟨rfl, [], (List.append_nil _).symm⟩

section Step

variable [DecidableEq ι] [DecidableEq ω] [DecidableEq υ] [Fintype ω] [Fintype υ]

theorem Traffic.step (h : s.Traffic p) (hparts : s.Parts p) (hdistinct : p.DistinctTags)
    {a : Action κ ι ω υ} (hs : Rpc.step p s a = some s') : s'.Traffic p := by
  have hsame : ∀ k, (s.requests k).written = (s.requests k).written ∧
      ∃ more, (s.requests k).handed = (s.requests k).handed ++ more :=
    fun _ => ⟨rfl, [], (List.append_nil _).symm⟩
  cases effect_of_step hs with
  | start i hstage =>
    have hholds := h.holds i
    rw [hstage] at hholds
    refine h.keep hsame (fun _ => rfl) rfl rfl rfl rfl rfl (fun _ => id) ?_ ?_
    · refine forall_goto (P := fun j stage => stage.Holds (s.handles j)) ?_ h.holds
      split
      · trivial
      · exact hholds
    · refine forall_goto (P := fun j stage => stage.writes = (s.stage j).writes) ?_ fun _ => rfl
      rw [hstage]
      split <;> rfl
  | register i hstage =>
    refine h.keep hsame (fun _ => rfl) rfl rfl rfl rfl rfl ?_ ?_ ?_
    · exact forall_setHandle (P := fun j handle => s.handles j ≠ none → handle ≠ none)
        (fun _ => nofun) fun _ => id
    · intro j
      dsimp only [goto, setHandle]
      by_cases hj : j = i
      · subst hj
        rw [Function.update_self, Function.update_self]
        exact nofun
      · rw [Function.update_of_ne hj, Function.update_of_ne hj]
        exact h.holds j
    · refine forall_goto (P := fun j stage => stage.writes = (s.stage j).writes) ?_ fun _ => rfl
      rw [hstage]
      rfl
  | writePackage i b l hstage hsend =>
    obtain ⟨hwritten, hhanded⟩ := Link.send_histories hsend
    exact h.writePackage hdistinct hstage hwritten hhanded
  | timeOut i handle hhandle =>
    have hholds := h.holds i
    rw [hhandle] at hholds
    refine h.keep hsame (fun _ => rfl) rfl rfl rfl rfl rfl ?_ ?_ ?_
    · exact forall_setHandle (P := fun j handle => s.handles j ≠ none → handle ≠ none)
        (fun _ => nofun) fun _ => id
    · exact forall_setHandle (P := fun j handle => (s.stage j).Holds handle)
        (hholds.of_some _) h.holds
    · exact fun _ => rfl
  | read i handle buf r hstage hhandle =>
    refine h.keep hsame (fun _ => rfl) rfl rfl rfl rfl rfl (fun _ => id) ?_ ?_
    · refine forall_goto (P := fun j stage => stage.Holds (s.handles j)) ?_ h.holds
      unfold answered
      split
      · trivial
      · rw [hhandle]
        exact nofun
    · refine forall_goto (P := fun j stage => stage.writes = (s.stage j).writes) ?_ fun _ => rfl
      rw [hstage]
      unfold answered
      split <;> rfl
  | closeConnection k =>
    exact h.keep hsame (fun _ => rfl) rfl rfl rfl rfl rfl (fun _ => id) h.holds fun _ => rfl
  | clientWrite k accepted l hl | serverRead k arrived l hl =>
    exact h.keep (histories_update hl nofun) (fun _ => rfl) rfl rfl rfl rfl rfl (fun _ => id)
      h.holds fun _ => rfl
  | serverWrite k accepted l hl | clientRead k arrived l hl =>
    exact h.keep hsame (fun k => (histories_update hl nofun k).1) rfl rfl rfl rfl rfl (fun _ => id)
      h.holds fun _ => rfl
  | readPackage w k x hk hx => exact h.readPackage hx
  | execute u t out server b l ht _ hlength hserver hreceived hresponses hsend =>
    exact h.execute hparts ht hlength hserver hreceived hresponses (Link.send_histories hsend).1
  | server a b server hserver hreceived hresponses =>
    exact h.keep hsame (fun _ => rfl) rfl hreceived hresponses rfl rfl (fun _ => id) h.holds
      fun _ => rfl
  | responseTag k x =>
    exact h.keep hsame (fun _ => rfl) rfl rfl rfl rfl rfl (fun _ => id) h.holds fun _ => rfl
  | write k i buf handle r _ hhandle =>
    have hholds := h.holds i
    rw [hhandle] at hholds
    refine h.keep hsame (fun _ => rfl) rfl rfl rfl rfl rfl ?_ ?_ ?_
    · exact forall_setHandle (P := fun j handle => s.handles j ≠ none → handle ≠ none)
        (fun _ => nofun) fun _ => id
    · exact forall_setHandle (P := fun j handle => (s.stage j).Holds handle)
        (hholds.of_some _) h.holds
    · exact fun _ => rfl

theorem traffic_of_reachable (hdistinct : p.DistinctTags) {fd : κ → Int}
    {clientCache serverCache : Int}
    (h : ReachableIf (Rpc.step p) (Within p) (new fd clientCache serverCache) s) : s.Traffic p :=
  h.invariant_under (fun _ hs => parts_of_reachable hs) (traffic_new ..)
    fun _ _ _ hparts _ hi _ hs => hi.step hparts hdistinct hs

end Step

end Rpc

end CppRpc
