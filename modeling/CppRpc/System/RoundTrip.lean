import CppRpc.System.Matching

/-!
# Calls from end to end

What holds of the calls in every run of the clients and the server.

* `served_of_reachable`: what a handle holds, and what a call returns, is what the
  function of the server answers to the arguments of this call.
* `executions_of_reachable`: the function runs for a call as often as its
  request has been written, at most, and has run for a call that returns.
* `executions_of_quiet`: nothing is lost on the way.  When nothing is under way
  any more, it has run as often as that, and no call waits for its response.
* `isSome_copies`: no copy of a response leaves its array.
-/

namespace CppRpc

open CData Proto3 Runs RequestServer

namespace Rpc

variable {κ ι ω υ : Type} [DecidableEq κ]

/-- How often the server has answered the call. -/
def executions (p : Program κ ι) (s : Rpc κ ι ω υ) (i : ι) : Nat :=
  (pairsOn (p.client i) s.server.responses).count (p.call i).pair

/-- Nothing is under way on the connection or in the server. -/
structure Quiet (s : Rpc κ ι ω υ) (k : κ) : Prop where
  requests : (s.requests k).bytes = []
  responses : (s.responses k).bytes = []
  taken : s.taken k = (s.requests k).handed.length
  matched : s.matched k = (s.responses k).handed.length
  delivering : s.delivering k = none
  server : s.server.Idle

variable {p : Program κ ι} {s : Rpc κ ι ω υ}

/-- The pairs that the server has received on a connection. -/
theorem Traffic.pairsOn_received (h : s.Traffic p) (k : κ) :
    pairsOn k s.server.received =
      ((((s.requests k).handed.take (s.taken k)).map Payload.bytes).map pairOf : List _) := by
  rw [← h.received k, List.map_map]
  rfl

theorem Answers.executions_pos {i : ι} {buf : List UInt8} (h : Answers p s i buf) :
    1 ≤ executions p s i := by
  rw [executions, Nat.one_le_iff_ne_zero, Multiset.count_ne_zero, ← h.pair]
  exact Multiset.mem_map.mpr ⟨_, Multiset.mem_filter.mpr ⟨h.mem, rfl⟩, rfl⟩

/-- A call whose request has been written has a handle. -/
theorem Traffic.handle_of_writes (h : s.Traffic p) (hdistinct : p.DistinctTags) {i : ι}
    (hwrites : 0 < s.writes i) : s.handles i ≠ none := by
  rw [← h.counted i, Multiset.count_pos, Multiset.mem_coe] at hwrites
  obtain ⟨buf, hbuf, hpair⟩ := List.mem_map.mp hwrites
  obtain ⟨j, hclient, rfl, hhandle⟩ := h.written _ buf hbuf
  rw [(p.call j).pairOf_request] at hpair
  obtain rfl := hdistinct.eq_of_pair hclient hpair
  exact hhandle

omit [DecidableEq κ] in
theorem Settled.not_waiting {i : ι} {handle : ResponseHandle} (h : Settled p s i handle) :
    handle.state ≠ .S_WAITING := by
  rcases h with hstate | ⟨buf, -, hwrite⟩
  · rw [hstate]
    exact nofun
  · rcases ResponseHandle.write_cases hwrite with ⟨hstate, -⟩ | ⟨-, hdone, -⟩
    · cases hstate
    · rw [hdone]
      exact nofun

variable [Fintype ω] [Fintype υ]

theorem Traffic.executions_le (h : s.Traffic p) (hparts : s.Parts p) (i : ι) :
    executions p s i ≤ s.writes i := by
  obtain ⟨pending, -, hwritten⟩ := (hparts.requests (p.client i)).written_eq
  have hsub : (((s.requests (p.client i)).handed.take (s.taken (p.client i))).map
      Payload.bytes).Sublist (s.requests (p.client i)).written := by
    rw [hwritten]
    exact ((List.take_sublist ..).map _).trans (List.sublist_append_left ..)
  calc executions p s i
      ≤ (pairsOn (p.client i) s.server.received).count (p.call i).pair :=
        Multiset.count_le_of_le _ (hparts.server.correlated.contained _)
    _ ≤ Multiset.count (p.call i).pair
          ((s.requests (p.client i)).written.map pairOf : List (Value × Value)) := by
        rw [h.pairsOn_received]
        exact Multiset.count_le_of_le _ (Multiset.coe_le.mpr (hsub.map _).subperm)
    _ = s.writes i := h.counted i

theorem Traffic.executions_eq (h : s.Traffic p) (hparts : s.Parts p) {i : ι}
    (hquiet : s.Quiet (p.client i)) (hfunc : (p.rpcFuncs (p.call i).method).isSome) :
    executions p s i = s.writes i := by
  have hreceived : pairsOn (p.client i) s.server.received =
      ((s.requests (p.client i)).written.map pairOf : List _) := by
    rw [h.pairsOn_received, hquiet.taken, List.take_length,
      (hparts.requests _).bytes_eq_nil_iff.mp hquiet.requests]
  rw [executions, hparts.server.correlated.complete hquiet.server, hreceived, ← h.counted i]
  exact Multiset.count_filter_of_pos hfunc

/-- With nothing under way and nothing refused, no handle waits. -/
theorem Matching.not_waiting (h : s.Matching p) (htraffic : s.Traffic p) (hparts : s.Parts p)
    {i : ι} (hquiet : s.Quiet (p.client i)) (hdropped : s.dropped (p.client i) = [])
    (hexecuted : 0 < executions p s i) {handle : ResponseHandle}
    (hhandle : s.handles i = some handle) : handle.state ≠ .S_WAITING := by
  by_cases ho : Open p s i
  · exfalso
    have hmap : s.responseHandles (p.client i) (p.tag i) = some i := by
      rcases ho with ho | ⟨buf, ho⟩
      · exact ho
      · rw [hquiet.delivering] at ho
        cases ho
    -- The response to the call has come through and has met no handle with its tag.
    obtain ⟨⟨k, buf⟩, hmem, hpair⟩ := Multiset.mem_map.mp (Multiset.count_pos.mp hexecuted)
    obtain ⟨hmem, hk⟩ := Multiset.mem_filter.mp hmem
    obtain rfl : k = p.client i := hk
    have hwritten : buf ∈ (s.responses (p.client i)).written := by
      have hsum := htraffic.responded (p.client i)
      rw [hdropped, Multiset.coe_nil, add_zero] at hsum
      rw [← Multiset.mem_coe, hsum, Multiset.mem_coe, mem_filter_map]
      exact hmem
    rw [(hparts.responses _).bytes_eq_nil_iff.mp hquiet.responses] at hwritten
    obtain ⟨x, hx, rfl⟩ := List.mem_map.mp hwritten
    refine h.unmatched _ _ _ hmap x ?_ ((p.call i).tagOfResponse_of_pair hpair)
    rw [hquiet.matched, List.take_length]
    exact hx
  · exact (h.settled i handle hhandle ho).not_waiting

/-! ## Two calls -/

deriving instance DecidableEq for WorkerCaller, RequestReader

/-- `sub(a, b)`. -/
def subCall (queryId a b : BitVec 32)
    (fits : subDef.requestSize (.int32 queryId) [.int32 a, .int32 b] ≤ BLOCK) : StubCall where
  d := subDef
  stub := subDef.stub.get (by rfl)
  stub_eq := (Option.some_get _).symm
  queryId
  args := [.int32 a, .int32 b]
  types_args := rfl
  fits := le_of_eq_of_le (length_stub (Option.some_get _).symm queryId _) fits

/-- `sub(300, 1)` and `sub(5, 5)` on one connection. -/
def twoCalls : Program (Fin 1) (Fin 2) where
  strHash _ := 0
  defs := [(subDef, sub)]
  call i := if i = 0 then subCall 1 300 1 (by decide +kernel) else subCall 2 5 5 (by decide +kernel)
  client _ := 0
  resends := false

theorem distinctTags_twoCalls : twoCalls.DistinctTags := by
  unfold Program.DistinctTags
  decide +kernel

theorem inPlace_twoCalls : twoCalls.InPlace := by
  unfold Program.InPlace
  decide +kernel

theorem sharedDefs_twoCalls : twoCalls.SharedDefs := by
  intro i e he _
  obtain rfl : e = (subDef, sub) := List.mem_singleton.mp he
  unfold twoCalls
  dsimp only
  split <;> rfl

/-- Both are answered and nothing is left under way.  The first has returned, the
second has still to read its response. -/
theorem exists_two_calls : ∃ s : Rpc (Fin 1) (Fin 2) (Fin 1) (Fin 1),
    ReachableIf (step twoCalls) (Within twoCalls) (new (fun _ => 3) 2100 2100) s ∧
      (s.stage 0 = .returned (.int32 299) ∧ s.stage 1 = .waiting ∧ s.writes 1 = 1 ∧
        s.dropped 0 = []) ∧ s.Quiet 0 := by
  obtain ⟨s, hs, hcalls, hlinks, htasks, hassigned, hinTask, hreaders⟩ :
      ∃ s : Rpc (Fin 1) (Fin 2) (Fin 1) (Fin 1),
        ReachableIf (step twoCalls) (Within twoCalls) (new (fun _ => 3) 2100 2100) s ∧
          (s.stage 0 = .returned (.int32 299) ∧ s.stage 1 = .waiting ∧ s.writes 1 = 1 ∧
            s.dropped 0 = []) ∧
          ((s.requests 0).bytes = [] ∧ (s.responses 0).bytes = [] ∧
            s.taken 0 = (s.requests 0).handed.length ∧
            s.matched 0 = (s.responses 0).handed.length ∧ s.delivering 0 = none) ∧
          s.server.pool.tasks.isEmpty ∧ (s.server.worker 0).assigned.card = 0 ∧
          (s.server.worker 0).inTask.card = 0 ∧
          s.server.readers 0 = .outside :=
    exists_reachable_of_run
      [.start 0, .register 0, .writePackage 0, .start 1, .register 1, .writePackage 1,
        .clientWrite 0 39, .serverRead 0 30, .server (.readStart 0 0), .readPackage 0,
        .server (.handleRequest 0), .server (.push 0), .server (.notify 0), .work 0, .work 0,
        .work 0, .work 0, .serverRead 0 9, .readPackage 0, .server (.handleRequest 0),
        .server (.push 0), .server (.notify 0), .server (.readEnd 0), .serverWrite 0 18,
        .clientRead 0 18, .responseTag 0, .write 0, .read 0, .work 0, .work 0, .work 0, .work 0,
        .serverWrite 0 15, .clientRead 0 15, .responseTag 0, .write 0]
      (by decide +kernel)
  obtain ⟨hrequests, hresponses, htaken, hmatched, hdelivering⟩ := hlinks
  refine ⟨s, hs, hcalls, hrequests, hresponses, htaken, hmatched, hdelivering,
    List.isEmpty_iff.mp htasks, fun u => ?_, fun w => ?_⟩
  · obtain rfl : u = 0 := Subsingleton.elim ..
    exact ⟨Multiset.card_eq_zero.mp hassigned, Multiset.card_eq_zero.mp hinTask⟩
  · obtain rfl : w = 0 := Subsingleton.elim ..
    exact hreaders

/-! ## The results -/

section Results

variable [DecidableEq ι] [DecidableEq ω] [DecidableEq υ]

/-- In every run, with the loop in `send_request` and without, the response in
the handle of a call is decoded to the answer of the function on the server, and
this is what the call returns. -/
theorem served_of_reachable (hdistinct : p.DistinctTags) (hshared : p.SharedDefs) {fd : κ → Int}
    {clientCache serverCache : Int}
    (h : ReachableIf (step p) (Within p) (new fd clientCache serverCache) s) (i : ι) :
    (∀ handle ∈ s.handles i, handle.state = .S_DONE →
      (p.call i).Served p.defs ((p.call i).result (stored handle))) ∧
      ∀ v, s.stage i = .returned v → (p.call i).Served p.defs v := by
  have hmatching := matching_of_reachable hdistinct h
  constructor
  · intro handle hhandle hdone
    have hanswers := hmatching.stored (traffic_of_reachable hdistinct h) hhandle hdone
    exact (p.call i).served_of_answer (hshared i) hanswers.caller
  · intro v hv
    obtain ⟨buf, hanswers, rfl⟩ := hmatching.returned i v hv
    exact (p.call i).served_of_answer (hshared i) hanswers.caller

theorem served_of_reachable_two_calls : ∃ s : Rpc (Fin 1) (Fin 2) (Fin 1) (Fin 1),
    s.stage 0 = .returned (.int32 299) ∧
      (twoCalls.call 0).Served twoCalls.defs (.int32 299) := by
  obtain ⟨s, hs, hcalls, -⟩ := exists_two_calls
  exact ⟨s, hcalls.1,
    (served_of_reachable distinctTags_twoCalls sharedDefs_twoCalls hs 0).2 _ hcalls.1⟩

/-- In every run, the function of a call runs as often as the request has been
written at most, which is once without the loop in `send_request`, and it has
run when the call returns. -/
theorem executions_of_reachable (hdistinct : p.DistinctTags) {fd : κ → Int}
    {clientCache serverCache : Int}
    (h : ReachableIf (step p) (Within p) (new fd clientCache serverCache) s) (i : ι) :
    executions p s i ≤ s.writes i ∧
      (p.resends = false → executions p s i ≤ (s.stage i).writes) ∧
      ∀ v, s.stage i = .returned v → 1 ≤ executions p s i := by
  have htraffic := traffic_of_reachable hdistinct h
  have hle := htraffic.executions_le (parts_of_reachable h) i
  refine ⟨hle, fun hresends => ?_, fun v hv => ?_⟩
  · rw [← htraffic.once hresends i]
    exact hle
  · obtain ⟨buf, hanswers, -⟩ := (matching_of_reachable hdistinct h).returned i v hv
    exact hanswers.executions_pos

theorem executions_of_reachable_two_calls : ∃ s : Rpc (Fin 1) (Fin 2) (Fin 1) (Fin 1),
    s.stage 0 = .returned (.int32 299) ∧ executions twoCalls s 0 ≤ s.writes 0 ∧
      (twoCalls.resends = false → executions twoCalls s 0 ≤ (s.stage 0).writes) ∧
      ∀ v, s.stage 0 = .returned v → 1 ≤ executions twoCalls s 0 := by
  obtain ⟨s, hs, hcalls, -⟩ := exists_two_calls
  exact ⟨s, hcalls.1, executions_of_reachable distinctTags_twoCalls hs 0⟩

/-- When nothing is under way on a connection, a response to each of its calls has
come to the handle, if `write_package` has refused none. -/
theorem exists_response_of_quiet (hdistinct : p.DistinctTags) {fd : κ → Int}
    {clientCache serverCache : Int}
    (h : ReachableIf (step p) (Within p) (new fd clientCache serverCache) s) {i : ι}
    (hquiet : s.Quiet (p.client i)) (hfunc : (p.rpcFuncs (p.call i).method).isSome)
    (hdropped : s.dropped (p.client i) = []) (hwrites : 0 < s.writes i) :
    ∃ handle ∈ s.handles i, handle.state ≠ .S_WAITING := by
  have hparts := parts_of_reachable h
  have htraffic := traffic_of_reachable hdistinct h
  have hexecutions := htraffic.executions_eq hparts hquiet hfunc
  obtain ⟨handle, hhandle⟩ :=
    Option.ne_none_iff_exists'.mp (htraffic.handle_of_writes hdistinct hwrites)
  refine ⟨handle, hhandle, ?_⟩
  exact (matching_of_reachable hdistinct h).not_waiting htraffic hparts hquiet hdropped
    (by rw [hexecutions]; exact hwrites) hhandle

/-- In every run, when nothing is under way on a connection, the requests
written have all been executed, and the response to each is at its handle unless
`write_package` has refused one. -/
theorem executions_of_quiet (hdistinct : p.DistinctTags) {fd : κ → Int}
    {clientCache serverCache : Int}
    (h : ReachableIf (step p) (Within p) (new fd clientCache serverCache) s) {i : ι}
    (hquiet : s.Quiet (p.client i)) (hfunc : (p.rpcFuncs (p.call i).method).isSome) :
    executions p s i = s.writes i ∧
      (s.dropped (p.client i) = [] → 0 < s.writes i →
        ∃ handle ∈ s.handles i, handle.state ≠ .S_WAITING) :=
  ⟨(traffic_of_reachable hdistinct h).executions_eq (parts_of_reachable h) hquiet hfunc,
    exists_response_of_quiet hdistinct h hquiet hfunc⟩

theorem executions_of_quiet_two_calls : ∃ s : Rpc (Fin 1) (Fin 2) (Fin 1) (Fin 1),
    s.writes 1 = 1 ∧ executions twoCalls s 1 = s.writes 1 ∧
      ∃ handle ∈ s.handles 1, handle.state ≠ .S_WAITING := by
  obtain ⟨s, hs, ⟨-, -, hwrites, hdropped⟩, hquiet⟩ := exists_two_calls
  obtain ⟨hexecutions, hhandle⟩ :=
    executions_of_quiet (i := 1) distinctTags_twoCalls hs hquiet (by decide +kernel)
  exact ⟨s, hwrites, hexecutions, hhandle hdropped (by rw [hwrites]; exact Nat.one_pos)⟩

/-- The server writes no response behind the array of its request, if the
response to each call fits there. -/
theorem inBounds_of_reachable (hdistinct : p.DistinctTags) (hfit : p.InPlace) {fd : κ → Int}
    {clientCache serverCache : Int}
    (h : ReachableIf (step p) (Within p) (new fd clientCache serverCache) s) :
    s.server.InBounds p.rpcFuncs := by
  have hparts := parts_of_reachable h
  have htraffic := traffic_of_reachable hdistinct h
  refine RequestServer.inBounds_of_received hparts.server hparts.answers ?_
  rintro ⟨k, buf⟩ hbuf
  obtain ⟨i, -, hrequest, -⟩ := htraffic.request_of hparts.requests hbuf
  rw [← hrequest]
  exact hfit i

theorem isSome_write (hdistinct : p.DistinctTags) {fd : κ → Int} {clientCache serverCache : Int}
    (h : ReachableIf (step p) (Within p) (new fd clientCache serverCache) s) {k : κ}
    (hk : s.delivering k ≠ none) : (step p s (.write k)).isSome := by
  have hmatching := matching_of_reachable hdistinct h
  obtain ⟨⟨i, buf⟩, hd⟩ := Option.ne_none_iff_exists'.mp hk
  obtain ⟨rfl, -, hhandle, -⟩ := hmatching.delivering k i buf hd
  obtain ⟨handle, hhandle⟩ := Option.ne_none_iff_exists'.mp hhandle
  have hwrite : (handle.write buf buf.length).isSome := by
    rcases hmatching.fresh i handle hhandle (Or.inr ⟨buf, hd⟩) with rfl | rfl
    · obtain ⟨n, data, hwrite, -⟩ := ResponseHandle.write_new (p.tag i) buf
      rw [hwrite]
      rfl
    · rfl
  simp only [step, hd, hhandle, Option.bind_some, Option.isSome_map]
  exact hwrite

theorem isSome_read (hdistinct : p.DistinctTags) {fd : κ → Int} {clientCache serverCache : Int}
    (h : ReachableIf (step p) (Within p) (new fd clientCache serverCache) s) {i : ι}
    (hi : s.stage i = .waiting) : (step p s (.read i)).isSome := by
  have htraffic := traffic_of_reachable hdistinct h
  have hholds := htraffic.holds i
  rw [hi] at hholds
  obtain ⟨handle, hhandle⟩ := Option.ne_none_iff_exists'.mp hholds
  obtain ⟨buf, hbuf, hlength⟩ : ∃ buf, serializeToBlock (p.call i).request = some buf ∧
      buf.length = BLOCK := by
    rcases serializeToBlock_cases (p.call i).request with ⟨-, hbuf⟩ | ⟨hlong, -⟩
    · exact hbuf
    · exact absurd hlong (Nat.not_lt.mpr (p.call i).length_request_le)
  obtain ⟨r, hr, -⟩ := (matching_of_reachable hdistinct h).readOut htraffic hhandle hlength
  simp only [step, hi, hhandle, hbuf, Option.bind_some, hr, Option.isSome_map]
  rfl

/-- In every run in which the response to each call fits the array of its request,
it fits each array that it comes to: that of the request on the server, that of
its handle, and that of the stub. -/
theorem isSome_copies (hdistinct : p.DistinctTags) (hfit : p.InPlace) {fd : κ → Int}
    {clientCache serverCache : Int}
    (h : ReachableIf (step p) (Within p) (new fd clientCache serverCache) s) :
    s.server.InBounds p.rpcFuncs ∧
      (∀ k, s.delivering k ≠ none → (step p s (.write k)).isSome) ∧
      ∀ i, s.stage i = .waiting → (step p s (.read i)).isSome :=
  ⟨inBounds_of_reachable hdistinct hfit h, fun _ => isSome_write hdistinct h,
    fun _ => isSome_read hdistinct h⟩

theorem isSome_copies_two_calls : ∃ s : Rpc (Fin 1) (Fin 2) (Fin 1) (Fin 1),
    s.stage 1 = .waiting ∧ s.server.InBounds twoCalls.rpcFuncs ∧
      (step twoCalls s (.read 1)).isSome := by
  obtain ⟨s, hs, hcalls, -⟩ := exists_two_calls
  obtain ⟨hbounds, -, hread⟩ := isSome_copies distinctTags_twoCalls inPlace_twoCalls hs
  exact ⟨s, hcalls.2.1, hbounds, hread 1 hcalls.2.1⟩

end Results

end Rpc

end CppRpc
