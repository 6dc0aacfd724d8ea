import CppRpc.Client.Stub
import CppRpc.Server.RpcFunc

/-!
# The array of a request and the response in it

`handle_request` allocates an array of the size of the request, and the RPC
function serialises the response into it.  `ResponseFits` is the property.  The
response repeats the method and the number of the request, and where the request
has its arguments it has the result, so the result has to fit the room that
these leave: `responseFits_iff`, and `responseFits_of_leavesRoom` for any parser.
In a request of the client stub the room is what the arguments take.
`response_of_sub_overflows` is a call of `sub` whose result is longer than its
arguments.
-/

namespace CppRpc

open Proto3

section Size

variable [Parser]

/-- The property, for one frame: the call of its function stays inside the
array. -/
def ResponseFits (rpcFuncs : RpcFuncMap) (buf : List UInt8) : Prop :=
  ∀ task ∈ handleRequest rpcFuncs buf, (workerCaller rpcFuncs task.1 task.2).isSome

instance (rpcFuncs : RpcFuncMap) : DecidablePred (ResponseFits rpcFuncs) := fun _ =>
  inferInstanceAs (Decidable (∀ task ∈ _, _))

/-- Of the bytes that the function writes there are at most as many as the frame
has. -/
theorem responseFits_iff_length {rpcFuncs : RpcFuncMap} {buf : List UInt8} :
    ResponseFits rpcFuncs buf ↔
      ∀ rpc ∈ rpcFuncs (methodOf buf), (rpc buf).length ≤ buf.length := by
  unfold ResponseFits handleRequest
  cases h : rpcFuncs (methodOf buf) with
  | none => simp
  | some rpc =>
    simp only [Option.isSome_some, if_true, Option.mem_some_iff, forall_eq']
    rw [Option.isSome_iff_exists]
    simp only [workerCaller_eq_some, h, Option.some.injEq]
    constructor
    · rintro ⟨out, rpc', rfl, rfl, hle⟩
      exact hle
    · exact fun hle => ⟨rpc buf, rpc, rfl, rfl, hle⟩

/-- The result field of the response, for what the user's function returns. -/
def FuncDef.resultField (d : FuncDef) (f : CppFunction) (buf : List UInt8) : Option Field := do
  let Request ← protoc d.request
  let t ← scalar? (getProtoType d.returnType)
  let args := rpcArguments Request f (d.funcArgs.map Arg.name) buf
  some ⟨"result", 4, convert t (f.body args)⟩

/-- The number of bytes of the result field. -/
def FuncDef.resultSize (d : FuncDef) (f : CppFunction) (buf : List UInt8) : Nat :=
  Message.byteSize (d.resultField f buf).toList

/-- The number of bytes of the method and the number in a message. -/
def headerSize (method queryId : Value) : Nat :=
  Message.byteSize [⟨"method", 1, method⟩, ⟨"query_id", 2, queryId⟩]

/-- What a frame has besides its method and its number. -/
def room (buf : List UInt8) : Int := buf.length - headerSize (methodOf buf) (queryIdOf buf)

/-- The condition, for one frame: whatever function it is for, the result field is
not longer than what the frame has besides its method and its number. -/
def LeavesRoom (defs : List (FuncDef × CppFunction)) (buf : List UInt8) : Prop :=
  ∀ e ∈ defs, ∀ r ∈ e.1.regisHelper e.2, methodOf buf = r.1 →
    (e.1.resultSize e.2 buf : Int) ≤ room buf

instance (defs : List (FuncDef × CppFunction)) : DecidablePred (LeavesRoom defs) := fun _ =>
  inferInstanceAs (Decidable (∀ e ∈ defs, ∀ r ∈ _, _ → _))

end Size

theorem byteSize_respond (t : Scalar) (method queryId result : Value) :
    (respond t method queryId result).byteSize =
      headerSize method queryId + Message.byteSize [⟨"result", 4, convert t result⟩] := by
  let header : Message := [⟨"method", 1, method⟩, ⟨"query_id", 2, queryId⟩]
  let state : Message := [⟨"state", 3, Scalar.int32.default⟩]
  let result' : Message := [⟨"result", 4, convert t result⟩]
  calc (respond t method queryId result).byteSize
      = header.byteSize + (state ++ result').byteSize := Message.byteSize_append header _
    _ = header.byteSize + (state.byteSize + result'.byteSize) := by rw [Message.byteSize_append]
    _ = header.byteSize + result'.byteSize := by rw [show state.byteSize = 0 from rfl, Nat.zero_add]

/-- An object of a request class starts with the method and the number. -/
theorem eq_of_clear {m fields : Message}
    (h : m.clear = ⟨"method", 1, Scalar.string.default⟩ ::
      ⟨"query_id", 2, Scalar.int32.default⟩ :: fields) :
    m = ⟨"method", 1, m.value "method"⟩ :: ⟨"query_id", 2, m.value "query_id"⟩ :: m.drop 2 := by
  match m with
  | [] | [_] => exact absurd (congrArg List.length h) (by simp [Message.clear])
  | ⟨name₁, number₁, v₁⟩ :: ⟨name₂, number₂, v₂⟩ :: rest =>
    obtain ⟨h₁, h⟩ := List.cons.inj h
    obtain ⟨h₂, -⟩ := List.cons.inj h
    obtain ⟨rfl, rfl, -⟩ := Field.mk.inj h₁
    obtain ⟨rfl, rfl, -⟩ := Field.mk.inj h₂
    rfl

section Stub

variable {d : FuncDef} {Request : Message} {func queryId : Value} {vars : String → Value}
  {args : List String} (h : protoc d.request = some Request) (hfunc : func.type = .string)
  (hqueryId : queryId.type = .int32)

include h hfunc hqueryId

/-- The request is its method, its number and the arguments. -/
theorem clientRequest_eq :
    clientRequest Request func queryId vars args =
      ⟨"method", 1, func⟩ :: ⟨"query_id", 2, queryId⟩ ::
        (clientRequest Request func queryId vars args).drop 2 := by
  obtain ⟨fields, hfields⟩ := protoc_request h
  have hclear : (clientRequest Request func queryId vars args).clear = Request :=
    clear_clientRequest.trans (clear_of_protoc h)
  have heq := eq_of_clear (hclear.trans hfields)
  rw [value_clientRequest_method h hfunc, value_clientRequest_queryId h hqueryId] at heq
  exact heq

end Stub

section Fits

variable {d : FuncDef} {f : CppFunction} {func : Value} {rpc : RpcFunc} {rpcFuncs : RpcFuncMap}
  {buf : List UInt8}

/-- What a registered function writes for a frame that is dispatched to it. -/
theorem length_rpc [Parser] (hagree : ∀ Request ∈ protoc d.request, AgreesWithTemplate Request)
    (h : d.regisHelper f = some (func, rpc)) (hbuf : methodOf buf = func) :
    (rpc buf).length = headerSize (methodOf buf) (queryIdOf buf) + d.resultSize f buf := by
  obtain ⟨Request, t, hRequest, ht, -, -, -, rfl⟩ := exists_of_regisHelper h
  rw [rpcServer_eq (hagree Request hRequest), if_pos hbuf]
  show Message.byteSize (respond ..) = _
  rw [byteSize_respond, FuncDef.resultSize, FuncDef.resultField, hRequest, ht]
  rfl

/-- Where the messages agree with the template, room is enough. -/
theorem responseFits_of_leavesRoom [Parser] {defs : List (FuncDef × CppFunction)}
    (hagree : Agreeing defs) (h : LeavesRoom defs buf) : ResponseFits (registered defs) buf := by
  rw [responseFits_iff_length]
  intro rpc hrpc
  obtain ⟨e, he, hregis⟩ := exists_of_registered hrpc
  have hroom := h e he _ hregis rfl
  rw [length_rpc (hagree e he) hregis rfl]
  unfold room at hroom
  omega

/-- The response to a frame fits the array of the frame exactly when the result
field is not longer than what the frame has besides its method and its number.
In a frame of the client stub, that is its arguments. -/
theorem responseFits_iff (h : d.regisHelper f = some (func, rpc)) (hreg : rpcFuncs func = some rpc)
    (hbuf : methodOf buf = func) :
    (ResponseFits rpcFuncs buf ↔ (d.resultSize f buf : Int) ≤ room buf) ∧
      ∀ Request queryId vars, protoc d.request = some Request → queryId.type = .int32 →
        let request := clientRequest Request func queryId vars (d.funcArgs.map Arg.name)
        buf = request.serialize → room buf = Message.byteSize (request.drop 2) := by
  constructor
  · have hlength := length_rpc (fun _ => agreesWithTemplate_of_protoc) h hbuf
    rw [responseFits_iff_length, hbuf, hreg]
    simp only [Option.mem_some_iff, forall_eq']
    rw [hlength, room, hbuf]
    omega
  · intro Request queryId vars hRequest hqueryId request hbuf'
    have hfunc : func.type = .string := hbuf ▸ type_methodOf buf
    have hbytes : buf.length = headerSize func queryId + Message.byteSize (request.drop 2) := by
      rw [hbuf', show request.serialize.length = request.byteSize from rfl,
        show request = _ from clientRequest_eq hRequest hfunc hqueryId]
      exact Message.byteSize_append [_, _] _
    have hid : queryIdOf buf = queryId := hbuf' ▸ queryIdOf_clientRequest hRequest hqueryId
    rw [room, hbuf, hid, hbytes]
    omega

end Fits

/-- The frame of `sub(300, 1)`. -/
theorem responseFits_iff_of_sub :
    ResponseFits (registered [(subDef, sub)]) [10, 3, 115, 117, 98, 16, 1, 24, 172, 2, 32, 1] := by
  obtain ⟨rpc, h⟩ : ∃ rpc, subDef.regisHelper sub = some (subName, rpc) := ⟨_, rfl⟩
  have hreg : registered [(subDef, sub)] subName = some rpc := by
    simp [registered, h, registerRpcFunc]
  exact (responseFits_iff h hreg (by decide +kernel)).1.mpr (by decide +kernel)

/-- The frame of `sub(1, 2)`: 11 bytes, and 18 bytes for the result -1. -/
theorem response_of_sub_overflows :
    ¬ ResponseFits (registered [(subDef, sub)]) [10, 3, 115, 117, 98, 16, 1, 24, 1, 32, 2] := by
  intro h
  have hsome := h (subName, [10, 3, 115, 117, 98, 16, 1, 24, 1, 32, 2]) (by decide +kernel)
  exact absurd hsome (by decide +kernel)

end CppRpc
