import CppRpc.Client.Requests
import CppRpc.Client.StubBuffer
import CppRpc.CodeGen.Generate
import CppRpc.Server.Responses

/-!
# Calls of the stubs

A call as both ends see it.  The client has the stub and its arguments; the
server sees the bytes of the request, and the method and the number in them are
what `response_tag` finds again in the response.

`StubCall` is a call whose stub compiles and whose request fits the array of the
stub.  `Served` says what it should return.  `served_of_answer` is the
connection: what the function registered under the method of the call writes for
its request, the stub decodes to that.
-/

namespace CppRpc

open Proto3

/-! ## Tags -/

/-- An `int32` field as an `int`. -/
def Proto3.Value.asInt32 : Value → BitVec 32
  | .int32 v => v
  | _ => 0

/-- `ClientService::hash`, where the method is a string of bytes. -/
def ClientService.hashOf (strHash : Value → BitVec 64) (method : Value) (queryId : BitVec 32) :
    BitVec 32 :=
  (queryId.signExtend 64 ^^^ strHash method).setWidth 32

/-- `response_tag`. -/
def tagOfResponse (strHash : Value → BitVec 64) (buf : List UInt8) : BitVec 32 :=
  let response := Parser.merge responseTemplate buf
  ClientService.hashOf strHash (response.value "method") (response.value "query_id").asInt32

/-- The tag depends on the method and the number alone. -/
theorem tagOfResponse_eq (strHash : Value → BitVec 64) (buf : List UInt8) :
    tagOfResponse strHash buf =
      ClientService.hashOf strHash (RequestServer.pairOf buf).1
        (RequestServer.pairOf buf).2.asInt32 := by
  have hvalue : ∀ name, responseTemplate.find? (·.name = name) =
      requestTemplate.find? (·.name = name) →
      (Parser.merge responseTemplate buf).value name =
        (Parser.merge requestTemplate buf).value name :=
    fun name hfind => congrArg (Option.getD · _) (Message.get?_merge_congr hfind buf)
  rw [tagOfResponse, hvalue "method" rfl, hvalue "query_id" rfl]
  rfl

/-! ## A call -/

/-- A call of a stub that compiles, with a request that fits `buf`. -/
structure StubCall where
  d : FuncDef
  stub : Value → List Value → List UInt8 × (List UInt8 → Value)
  stub_eq : d.stub = some stub
  queryId : BitVec 32
  args : List Value
  types_args : args.map Value.type = d.funcArgs.map fun arg => cppType arg.type
  fits : (stub (.int32 queryId) args).1.length ≤ BLOCK

namespace StubCall

variable (c : StubCall)

/-- What the stub hands to `send_request`. -/
def request : List UInt8 := (c.stub (.int32 c.queryId) c.args).1

/-- What the stub returns for a response. -/
def result (buf : List UInt8) : Value := (c.stub (.int32 c.queryId) c.args).2 buf

/-- `#func`. -/
def method : Value := (literal? c.d.name).getD (.bool false)

def pair : Value × Value := (c.method, .int32 c.queryId)

/-- The tag in `send_request`. -/
def tag (strHash : Value → BitVec 64) : BitVec 32 :=
  ClientService.hashOf strHash c.method c.queryId

theorem length_request_le : c.request.length ≤ BLOCK := c.fits

/-- The call returns `v` as a local call of a function of the server would, if
no `long` in it needs more than 32 bits. -/
def Served (defs : List (FuncDef × CppFunction)) (v : Value) : Prop :=
  ∃ f, (c.d, f) ∈ defs ∧ ∃ received, remoteCall c.d f c.queryId c.args = some (received, v) ∧
    (LongsFit c.d f c.args → received = c.args ∧ v = f.body c.args)

/-- The method and the number of the request. -/
theorem pairOf_request : RequestServer.pairOf c.request = c.pair := by
  obtain ⟨Request, t, func, params, result, hRequest, -, hfunc, -, -, -, -, hstub⟩ :=
    exists_of_stub c.stub_eq
  have hmethod : c.method = func := by rw [method, hfunc, Option.getD_some]
  rw [request, hstub, RequestServer.pairOf, pair, hmethod]
  dsimp only [rpcClient]
  rw [methodOf_clientRequest hRequest (type_of_literal hfunc), queryIdOf_clientRequest hRequest rfl]

theorem tagOfResponse_of_pair {strHash : Value → BitVec 64} {buf : List UInt8}
    (h : RequestServer.pairOf buf = c.pair) : tagOfResponse strHash buf = c.tag strHash := by
  rw [tagOfResponse_eq, h]
  rfl

/-- Where both ends come from one definition file, the response to the request
is decoded to what the call should return. -/
theorem served_of_answer {defs : List (FuncDef × CppFunction)}
    (hshared : ∀ e ∈ defs, e.1.name = c.d.name → e.1 = c.d) {out : List UInt8}
    (h : workerCaller (registered defs) c.method c.request = some out) :
    c.Served defs (c.result out) := by
  obtain ⟨rpc, hrpc, rfl, -⟩ := workerCaller_eq_some.mp h
  obtain ⟨⟨d, f⟩, hmem, hregis⟩ := exists_of_registered hrpc
  obtain ⟨Request, -, hRequest, -, hliteral, himpl, -, -⟩ := exists_of_regisHelper hregis
  obtain ⟨-, -, func, -, -, -, -, hfunc, -⟩ := exists_of_stub c.stub_eq
  have hmethod : literal? c.d.name = some c.method := by rw [method, hfunc, Option.getD_some]
  obtain rfl : d = c.d := hshared (d, f) hmem (literal?_inj hliteral hmethod)
  have htypes : c.args.map Value.type = f.params :=
    c.types_args.trans (params_of_implements himpl).symm
  have hcall : remoteCall c.d f c.queryId c.args =
      some (rpcArguments Request f (c.d.funcArgs.map Arg.name) c.request,
        c.result (rpc c.request)) := by
    unfold remoteCall
    rw [c.stub_eq, hregis, hRequest]
    exact if_pos htypes
  refine ⟨f, hmem, _, hcall, fun hfit => ?_⟩
  obtain ⟨hreceived, hbody⟩ := (transparent_call_iff hcall).mpr hfit
  dsimp only at hreceived hbody
  rw [hreceived] at hbody
  exact ⟨hreceived, hbody⟩

end StubCall

end CppRpc
