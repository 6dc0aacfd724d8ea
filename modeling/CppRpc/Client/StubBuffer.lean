import CppRpc.Client.ResponseHandle
import CppRpc.CodeGen.RemoteCall
import CppRpc.Net.Socket
import CppRpc.Server.ResponseFits

/-!
# The array of the stub

The body of every `RPC_CLIENTn` has one array `buf` of `BLOCK` bytes.  The
request is serialised into it, and `send_request` copies the response back into
it.  `NotOverrun` is the property, for one call.

Three limits meet on this way: the array has `BLOCK` bytes, a `ResponseHandle`
stores up to 2048, and `send_request` tells `read` that the array has
`BLOCK_SIZE`.  Nobody compares a request with `BLOCK`.  `notOverrun_iff` is the
exact condition.  `FuncDef.requestSize` is the size of a request, from the
definition of the function and the arguments.
-/

namespace CppRpc

open CData Proto3

/-! ## The copies -/

/-- `BLOCK` of `RPC_client.h`. -/
def BLOCK : Nat := 1024

/-- `request.SerializeWithCachedSizesToArray(buf)`.  The bytes of the array are
not initialised. -/
def serializeToBlock (request : List UInt8) : Option (List UInt8) :=
  memcpy (List.replicate BLOCK 0) 0 request 0 request.length

/-- How a call of `send_request` goes on after the request is in `buf`. -/
inductive CallOutcome
  /-- `S_NO_CONNECTION` or `S_LOCAL_CACHE_FULL`. -/
  | thrown
  | timedOut
  | answered (response : List UInt8)

/-- The copy back in `handle->read(buf, BLOCK_SIZE, ..)`: the return value and
`buf`.  A call that has thrown does not get there. -/
def copyBack (tag : BitVec 32) (buf : List UInt8) : CallOutcome → Option (Int × List UInt8)
  | .thrown => some (0, buf)
  | .timedOut => (ResponseHandle.new tag).timeOut.readOut buf BLOCK_SIZE
  | .answered response =>
      ((ResponseHandle.new tag).write response response.length).bind fun r =>
        r.2.readOut buf BLOCK_SIZE

/-- The property: both copies stay inside `buf`. -/
def NotOverrun (tag : BitVec 32) (request : List UInt8) (outcome : CallOutcome) : Prop :=
  ∃ buf ∈ serializeToBlock request, (copyBack tag buf outcome).isSome

instance (tag : BitVec 32) (request : List UInt8) (outcome : CallOutcome) :
    Decidable (NotOverrun tag request outcome) :=
  inferInstanceAs (Decidable (∃ buf ∈ _, _))

/-- The condition on the response: it fits the array, or it is so long that it
is not copied. -/
def CallOutcome.Fits : CallOutcome → Prop
  | .answered response => response.length ≤ BLOCK ∨ BLOCK_SIZE ≤ response.length
  | _ => True

instance : DecidablePred CallOutcome.Fits
  | .thrown | .timedOut => inferInstanceAs (Decidable True)
  | .answered _ => inferInstanceAs (Decidable (_ ∨ _))

theorem serializeToBlock_cases (request : List UInt8) :
    (request.length ≤ BLOCK ∧
      ∃ buf, serializeToBlock request = some buf ∧ buf.length = BLOCK) ∨
    (BLOCK < request.length ∧ serializeToBlock request = none) := by
  unfold serializeToBlock
  by_cases hlen : request.length ≤ BLOCK
  · refine Or.inl ⟨hlen, _, memcpy_eq_some _ request 0 0 request.length ?_ (by omega), ?_⟩
    · rw [List.length_replicate]
      omega
    · simp only [List.length_append, List.length_take, List.length_drop, List.length_replicate]
      omega
  · refine Or.inr ⟨by omega, ?_⟩
    rw [memcpy, if_neg (by rw [List.length_replicate]; omega)]

/-- A response comes back through the handle unless it is longer than the
array and shorter than the limit of `read`. -/
theorem isSome_answered_iff (tag : BitVec 32) {buf : List UInt8} (hbuf : buf.length = BLOCK)
    (response : List UInt8) :
    (copyBack tag buf (.answered response)).isSome ↔
      response.length ≤ BLOCK ∨ BLOCK_SIZE ≤ response.length := by
  obtain ⟨n, data, hwrite, hdata, -, hn⟩ := ResponseHandle.write_new tag response
  have hblock : BLOCK = 1024 := rfl
  have hlimit : BLOCK_SIZE = 2048 := rfl
  unfold copyBack
  dsimp only
  rw [hwrite, Option.bind_some, ResponseHandle.readOut_done rfl rfl (by omega)]
  by_cases hcopied : (n : Int) < BLOCK_SIZE
  · rw [if_pos hcopied, Option.isSome_map, memcpy, apply_ite Option.isSome]
    dsimp only
    rw [hbuf, hdata]
    split_ifs with hfits
    · exact iff_of_true rfl (by omega)
    · exact iff_of_false Bool.false_ne_true (by omega)
  · rw [if_neg hcopied]
    exact iff_of_true rfl (Or.inr (by omega))

/-- A call stays inside the array exactly when the request fits it and the
response meets the condition. -/
theorem notOverrun_iff_length (tag : BitVec 32) (request : List UInt8) (outcome : CallOutcome) :
    NotOverrun tag request outcome ↔ request.length ≤ BLOCK ∧ outcome.Fits := by
  unfold NotOverrun
  rcases serializeToBlock_cases request with ⟨hlen, buf, hser, hbuf⟩ | ⟨hlen, hser⟩
  · simp only [hser, Option.mem_some_iff, exists_eq_left', hlen, true_and]
    cases outcome with
    | thrown => exact iff_of_true rfl trivial
    | timedOut =>
      refine iff_of_true ?_ trivial
      show ((ResponseHandle.new tag).timeOut.readOut buf BLOCK_SIZE).isSome
      rfl
    | answered response => exact isSome_answered_iff tag hbuf response
  · simp only [hser, Option.not_mem_none, false_and, exists_false, false_iff]
    exact fun h => absurd h.1 (by omega)

/-! ## The size of a request -/

/-- The fields of the arguments in a request of the stub called with `vs`. -/
def FuncDef.argFields (d : FuncDef) (vs : List Value) : Message :=
  let params := d.funcArgs.map fun arg => cppType arg.type
  let vars := parameters (d.funcArgs.map Arg.name) (List.zipWith convert params vs)
  d.funcArgs.mapIdx fun j arg => ⟨arg.name, j + 3, convert (protoType arg.type) (vars arg.name)⟩

/-- The number of bytes of a request of the stub. -/
def FuncDef.requestSize (d : FuncDef) (queryId : Value) (vs : List Value) : Nat :=
  headerSize ((literal? d.name).getD (.bool false)) queryId + (d.argFields vs).byteSize

/-- The setters of distinct fields, one after the other. -/
theorem foldl_set {vars : String → Value} {args : List String} (hargs : args.Nodup)
    (m : Message) :
    args.foldl (fun m arg => m.set arg (vars arg)) m =
      m.map fun f =>
        if f.name ∈ args then { f with value := convert f.value.type (vars f.name) } else f := by
  induction args generalizing m with
  | nil => simp
  | cons arg args ih =>
    obtain ⟨harg, hargs⟩ := List.nodup_cons.mp hargs
    rw [List.foldl_cons, ih hargs, Message.set, List.map_map]
    refine List.map_congr_left fun f _ => ?_
    rw [Function.comp_apply, Field.set]
    by_cases hname : f.name = arg
    · rw [if_pos hname, if_neg (show f.name ∉ args by rw [hname]; exact harg),
        if_pos (by rw [hname]; exact List.mem_cons_self ..), hname]
    · rw [if_neg hname]
      simp only [List.mem_cons, hname, false_or]

/-- Behind the method and the number a new request has a field for each
argument. -/
theorem drop_protoc_request {d : FuncDef} {Request : Message}
    (h : protoc d.request = some Request) :
    Request.drop 2 =
      d.funcArgs.mapIdx fun j arg => ⟨arg.name, j + 3, (protoType arg.type).default⟩ := by
  have hmap := map_of_mapM (Option.filter_eq_some_iff.mp h).1
  apply List.ext_getElem?
  intro j
  have hj : (d.request.map ProtoField.field?)[2 + j]? = (Request.map some)[2 + j]? := by
    rw [hmap]
  rw [List.getElem?_map, List.getElem?_map, Nat.add_comm, FuncDef.request,
    List.getElem?_cons_succ, List.getElem?_cons_succ, List.getElem?_mapIdx] at hj
  rw [List.getElem?_drop, List.getElem?_mapIdx, Nat.add_comm]
  cases harg : d.funcArgs[j]? with
  | none =>
    rw [harg] at hj
    exact Option.map_eq_none_iff.mp hj.symm
  | some arg =>
    rw [harg] at hj
    obtain ⟨f, hf, hfield⟩ := Option.map_eq_some_iff.mp hj.symm
    obtain ⟨t, ht, rfl⟩ := Option.map_eq_some_iff.mp hfield.symm
    rw [hf, Option.map_some, protoType, show scalar? (getProtoType arg.type) = some t from ht]
    rfl

/-- Behind the method and the number a request has its arguments. -/
theorem drop_clientRequest {d : FuncDef} {Request : Message} (h : protoc d.request = some Request)
    (func queryId : Value) (vars : String → Value) :
    (clientRequest Request func queryId vars (d.funcArgs.map Arg.name)).drop 2 =
      d.funcArgs.mapIdx fun j arg =>
        ⟨arg.name, j + 3, convert (protoType arg.type) (vars arg.name)⟩ := by
  obtain ⟨hargs, hmethod, hqueryId⟩ := args_nodup_of_protoc h
  have hother : ∀ name ∉ d.funcArgs.map Arg.name, ∀ (v : Value), ∀ arg ∈ d.funcArgs,
      ∀ number value, (⟨arg.name, number, value⟩ : Field).set name v =
        ⟨arg.name, number, value⟩ := by
    intro name hname v arg harg number value
    exact if_neg (ne_of_mem_of_not_mem (List.mem_map_of_mem harg) hname)
  rw [clientRequest, foldl_set hargs, Message.set, Message.set, List.map_map, List.map_map,
    ← List.map_drop, drop_protoc_request h]
  apply List.ext_getElem?
  intro j
  rw [List.getElem?_map, List.getElem?_mapIdx, List.getElem?_mapIdx, Option.map_map]
  cases harg : d.funcArgs[j]? with
  | none => rfl
  | some arg =>
    have hmem : arg ∈ d.funcArgs := List.mem_of_getElem? harg
    have hname : arg.name ∈ d.funcArgs.map Arg.name := List.mem_map_of_mem hmem
    simp only [Option.map_some, Function.comp_apply, hname, if_true]
    rw [hother _ hqueryId _ _ hmem, hother _ hmethod _ _ hmem, Scalar.type_default]

theorem length_stub {d : FuncDef}
    {stub : Value → List Value → List UInt8 × (List UInt8 → Value)} (h : d.stub = some stub)
    (queryId : BitVec 32) (vs : List Value) :
    (stub (.int32 queryId) vs).1.length = d.requestSize (.int32 queryId) vs := by
  obtain ⟨Request, t, func, params, result, hRequest, -, hfunc, hparams, -, -, -, hstub⟩ :=
    exists_of_stub h
  have hcpp := eq_map_cppType hparams
  rw [hstub]
  show Message.byteSize (clientRequest ..) = _
  rw [clientRequest_eq hRequest (type_of_literal hfunc) rfl, drop_clientRequest hRequest,
    FuncDef.requestSize, FuncDef.argFields, hfunc, ← hcpp]
  exact Message.byteSize_append [_, _] _

/-- For every function that has a stub, every arguments and every way the call
goes on: nothing is written beyond the array exactly when the request has at
most `BLOCK` bytes and the response has at most so many, or `BLOCK_SIZE` or
more. -/
theorem notOverrun_iff {d : FuncDef}
    {stub : Value → List Value → List UInt8 × (List UInt8 → Value)} (h : d.stub = some stub)
    (queryId : BitVec 32) (vs : List Value) (tag : BitVec 32) (outcome : CallOutcome) :
    NotOverrun tag (stub (.int32 queryId) vs).1 outcome ↔
      d.requestSize (.int32 queryId) vs ≤ BLOCK ∧ outcome.Fits := by
  rw [notOverrun_iff_length, length_stub h]

/-- `string echo(string s)`. -/
def echoDef : FuncDef := ⟨"string", "echo", [⟨"string", "s"⟩]⟩

/-- A string of `n` zero bytes. -/
def zeros (n : Nat) (h : n < 4294967296) : Value :=
  .string ⟨List.replicate n 0, by rw [List.length_replicate]; exact h⟩

theorem notOverrun_iff_echo : ∃ stub, echoDef.stub = some stub ∧
    NotOverrun 7 (stub (.int32 1) [zeros 1000 (by decide)]).1 (.answered [10, 0]) := by
  obtain ⟨stub, h⟩ : ∃ stub, echoDef.stub = some stub := ⟨_, rfl⟩
  exact ⟨stub, h, (notOverrun_iff h 1 _ 7 _).mpr (by decide +kernel)⟩

/-- A call of `echo` with 1020 bytes, and a response of 1500 bytes to a short
one. -/
theorem echo_overruns : ∃ stub, echoDef.stub = some stub ∧
    ¬ NotOverrun 7 (stub (.int32 1) [zeros 1020 (by decide)]).1 .thrown ∧
    ¬ NotOverrun 7 (stub (.int32 1) [zeros 3 (by decide)]).1
      (.answered (List.replicate 1500 0)) :=
  ⟨_, rfl, by decide +kernel, by decide +kernel⟩

end CppRpc
