import CppRpc.CodeGen.Messages
import CppRpc.Lib.CData

/-!
# `RPC_server/RPC_server_template.h`

The functions that the macros `RPC_SERVER0` to `RPC_SERVER5` define, their
registration, and the two functions of `RequestHandle` that find and call them.
`code_gen` writes one use of a macro for each function of the definition file;
`FuncDef.regisHelper` is what it registers.

An RPC function works in place: it reads the request from `buf` and writes the
response to the same array.  `RpcFunc` answers the bytes that it writes, and
their number is the length that it returns.  It is not told how long the array
is; `callInPlace` is the call on an array of so many bytes, undefined where the
response is longer, and `workerCaller` what comes of it.

`rpcServer_eq` says what is written: the response has the method and the number
of the request, as the request template reads them.
-/

namespace CppRpc

open Proto3

/-- The function that the user implements. -/
structure CppFunction where
  params : List Scalar
  result : Scalar
  body : List Value → Value
  type_body : ∀ vs, (body vs).type = result

/-- The parameters in a call with `vs`. -/
def CppFunction.arguments (f : CppFunction) (vs : List Value) : List Value :=
  List.zipWith convert f.params vs

/-- The declaration that `d` stands for. -/
def CppFunction.Implements (f : CppFunction) (d : FuncDef) : Prop :=
  d.funcArgs.map (fun arg => cppType? arg.type) = f.params.map some ∧
    cppType? d.returnType = some f.result

instance (f : CppFunction) (d : FuncDef) : Decidable (f.Implements d) :=
  inferInstanceAs (Decidable (_ ∧ _))

/-! ## The macros -/

/-- From the contents of `buf` to the bytes written there. -/
abbrev RpcFunc := List UInt8 → List UInt8

section Macros

variable [Parser] (Request Response : Message) (f : CppFunction)

/-- The parameters that `RPC_SERVERn` calls the user's function with. -/
def rpcArguments (args : List String) (buf : List UInt8) : List Value :=
  f.arguments (args.map (Parser.merge Request buf).value)

/-- The function of `RPC_SERVERn`, with `n` names in `args`. -/
def rpcServer (result : String) (func : Value) (args : List String) : RpcFunc := fun buf =>
  let request := Parser.merge Request buf
  if request.value "method" ≠ func then []
  else
    let response := Response.set "method" (request.value "method")
    let response := response.set "query_id" (request.value "query_id")
    (response.set result (f.body (rpcArguments Request f args buf))).serialize

def rpcServer0 (result : String) (func : Value) : RpcFunc :=
  rpcServer Request Response f result func []

def rpcServer1 (result : String) (func : Value) (arg1 : String) : RpcFunc :=
  rpcServer Request Response f result func [arg1]

def rpcServer2 (result : String) (func : Value) (arg1 arg2 : String) : RpcFunc :=
  rpcServer Request Response f result func [arg1, arg2]

def rpcServer3 (result : String) (func : Value) (arg1 arg2 arg3 : String) : RpcFunc :=
  rpcServer Request Response f result func [arg1, arg2, arg3]

def rpcServer4 (result : String) (func : Value) (arg1 arg2 arg3 arg4 : String) : RpcFunc :=
  rpcServer Request Response f result func [arg1, arg2, arg3, arg4]

def rpcServer5 (result : String) (func : Value) (arg1 arg2 arg3 arg4 arg5 : String) : RpcFunc :=
  rpcServer Request Response f result func [arg1, arg2, arg3, arg4, arg5]

/-- The use of a macro that `write_server_cc` writes.  There are six macros. -/
def rpcServerN (func : Value) : List String → Option RpcFunc
  | [] => some (rpcServer0 Request Response f "result" func)
  | [a] => some (rpcServer1 Request Response f "result" func a)
  | [a, b] => some (rpcServer2 Request Response f "result" func a b)
  | [a, b, c] => some (rpcServer3 Request Response f "result" func a b c)
  | [a, b, c, d] => some (rpcServer4 Request Response f "result" func a b c d)
  | [a, b, c, d, e] => some (rpcServer5 Request Response f "result" func a b c d e)
  | _ => none

end Macros

/-- The variables in a function of the macros, which hide a user's function of
the same name. -/
def serverLocals : List String := ["buf", "len", "request", "input", "response"]

/-- The functions of `RPC_server.h` and of `ServerMonitor.cc` that a user's
function can clash with, and the types of their parameters. -/
def serverFunctions : List (String × List String) :=
  [("run", []), ("clrsr", []), ("gotoxy", ["int", "int"])]

/-- The server leaves the name of the function to the user. -/
def FuncDef.Free (d : FuncDef) : Prop :=
  d.name ∉ "RegisHelper" :: serverLocals ∧
    (d.name, d.funcArgs.map Arg.type) ∉ serverFunctions

instance : DecidablePred FuncDef.Free := fun _ => inferInstanceAs (Decidable (_ ∧ _))

section Dispatch

variable [Parser]

/-- The name and the function that `RegisHelper` gets, if the generated code
compiles with `f`. -/
def FuncDef.regisHelper (d : FuncDef) (f : CppFunction) : Option (Value × RpcFunc) := do
  let Request ← protoc d.request
  let Response ← protoc d.response
  let func ← literal? d.name
  if d.Named ∧ d.Free ∧ f.Implements d then
    (rpcServerN Request Response f func (d.funcArgs.map Arg.name)).map fun rpc => (func, rpc)
  else none

/-! ## Dispatch -/

/-- `m_rpc_funcs`. -/
abbrev RpcFuncMap := Value → Option RpcFunc

def registerRpcFunc (rpcFuncs : RpcFuncMap) (funcName : Value) (func : RpcFunc) : RpcFuncMap :=
  Function.update rpcFuncs funcName (some func)

/-- The map after the registrations of the generated code. -/
def registered (defs : List (FuncDef × CppFunction)) : RpcFuncMap :=
  (defs.filterMap fun e => e.1.regisHelper e.2).foldl (fun m r => registerRpcFunc m r.1 r.2)
    fun _ => none

/-- What `handle_request` binds to `worker_caller`: the name, and an array with
the request. -/
def handleRequest (rpcFuncs : RpcFuncMap) (buf : List UInt8) : Option (Value × List UInt8) :=
  if (rpcFuncs (methodOf buf)).isSome then some (methodOf buf, buf) else none

theorem handleRequest_eq_none {rpcFuncs : RpcFuncMap} {buf : List UInt8}
    (h : handleRequest rpcFuncs buf = none) : rpcFuncs (methodOf buf) = none := by
  unfold handleRequest at h
  split at h
  · cases h
  · rename_i hnone
    exact Option.not_isSome_iff_eq_none.mp hnone

theorem handleRequest_eq_some {rpcFuncs : RpcFuncMap} {buf ptr : List UInt8} {func : Value}
    (h : handleRequest rpcFuncs buf = some (func, ptr)) :
    func = methodOf buf ∧ buf = ptr ∧ (rpcFuncs (methodOf buf)).isSome := by
  unfold handleRequest at h
  split at h
  · rename_i hsome
    cases h
    exact ⟨rfl, rfl, hsome⟩
  · cases h

end Dispatch

/-- `rpc(array, len)`: the array behind the call, and the length that is
returned.  The response goes to the start of the array, which has `len` bytes. -/
def callInPlace (rpc : RpcFunc) (array : List UInt8) : Option (List UInt8 × Nat) :=
  (CData.memcpy array 0 (rpc array) 0 (rpc array).length).map fun array' =>
    (array', (rpc array).length)

/-- What `worker_caller` passes to `write_package`. -/
def workerCaller (rpcFuncs : RpcFuncMap) (func : Value) (ptr : List UInt8) : Option (List UInt8) :=
  (rpcFuncs func).bind fun rpc => (callInPlace rpc ptr).map fun r => r.1.take r.2

/-- The call is defined exactly for a response that is not longer than the
array. -/
theorem callInPlace_eq (rpc : RpcFunc) (array : List UInt8) :
    (callInPlace rpc array).map (fun r => r.1.take r.2) =
      if (rpc array).length ≤ array.length then some (rpc array) else none := by
  unfold callInPlace
  split_ifs with hle
  · have hcopy := CData.memcpy_eq_some array (rpc array) 0 0 (rpc array).length (by omega)
      (by omega)
    rw [show ((0 : Nat) : Int) = 0 from rfl] at hcopy
    rw [hcopy, Option.map_some, Option.map_some, List.take_zero, List.nil_append, List.drop_zero,
      List.take_length, List.take_left' rfl]
  · rw [CData.memcpy, if_neg (by omega), Option.map_none, Option.map_none]

theorem workerCaller_eq_some {rpcFuncs : RpcFuncMap} {func : Value} {ptr out : List UInt8} :
    workerCaller rpcFuncs func ptr = some out ↔
      ∃ rpc, rpcFuncs func = some rpc ∧ rpc ptr = out ∧ out.length ≤ ptr.length := by
  unfold workerCaller
  cases rpcFuncs func with
  | none => simp
  | some rpc =>
    rw [Option.bind_some, callInPlace_eq]
    constructor
    · intro h
      split at h
      · rename_i hle
        cases h
        exact ⟨rpc, rfl, rfl, hle⟩
      · cases h
    · rintro ⟨rpc', hrpc, rfl, hle⟩
      cases hrpc
      rw [if_pos hle]

/-! ## What a request and a response carry -/

/-- The response as an object. -/
def respond (t : Scalar) (method queryId result : Value) : Message :=
  [⟨"method", 1, method⟩, ⟨"query_id", 2, queryId⟩, ⟨"state", 3, Scalar.int32.default⟩,
    ⟨"result", 4, convert t result⟩]

theorem valid_respond (t : Scalar) (method queryId result : Value) :
    (respond t method queryId result).Valid := by
  refine ⟨?_, ?_⟩
  · show [1, 2, 3, 4].Nodup
    decide
  · simp [respond]

section Response

variable {t : Scalar} {method queryId result : Value} (hmethod : method.type = .string)
  (hqueryId : queryId.type = .int32)

include hmethod hqueryId

theorem newResponse_set :
    (((newResponse t).set "method" method).set "query_id" queryId).set "result" result =
      respond t method queryId result := by
  simp [newResponse, respond, Message.set, Field.set, convert_self hmethod, convert_self hqueryId]

theorem clear_respond : (respond t method queryId result).clear = newResponse t := by
  simp [respond, newResponse, Message.clear, Field.clear, hmethod, hqueryId]

/-- Any parser reads the method and the number of a response, if its method is
UTF-8. -/
theorem pair_respond [Parser] (hutf8 : ∀ bs : Bytes, method = .string bs → IsUtf8 bs.1)
    (t : Scalar) (result : Value) :
    methodOf (respond t method queryId result).serialize = method ∧
      queryIdOf (respond t method queryId result).serialize = queryId := by
  have hreads : requestTemplate.Reads (respond t method queryId result).serialize := by
    apply Message.reads_serialize (valid_respond ..)
    intro f hf htype g hg hnumber bs hbs
    -- The only string of the template is the method, with the number 1.
    have hone : f.number = 1 := by
      simp only [requestTemplate, List.mem_cons, List.not_mem_nil, or_false] at hf
      rcases hf with rfl | rfl
      · rfl
      · cases htype
    rw [hone] at hnumber
    have hg' : g.value = method := by
      simp only [respond, List.mem_cons, List.not_mem_nil, or_false] at hg
      rcases hg with rfl | rfl | rfl | rfl
      · rfl
      · cases hnumber
      · cases hnumber
      · cases hnumber
    rw [hg'] at hbs
    cases method with
    | string v =>
      cases hbs
      exact hutf8 _ rfl
    | _ => cases hmethod
  have hvalue : ∀ name, (newResponse t).find? (·.name = name) =
      requestTemplate.find? (·.name = name) →
      (Parser.merge requestTemplate (respond t method queryId result).serialize).value name =
        (respond t method queryId result).value name := by
    intro name hfind
    rw [Parser.merge_eq hreads, Message.value, ← Message.get?_merge_congr hfind,
      ← clear_respond hmethod hqueryId, Message.merge_serialize (valid_respond ..)]
    rfl
  exact ⟨hvalue "method" rfl, hvalue "query_id" rfl⟩

/-- The client reads the result in its response class. -/
theorem value_merge_respond :
    ((newResponse t).merge (respond t method queryId result).serialize).value "result" =
      convert t result := by
  rw [← clear_respond hmethod hqueryId, Message.merge_serialize (valid_respond ..)]
  rfl

end Response

/-! ## The generated functions -/

section Registered

variable [Parser]

/-- What a function of the macros writes. -/
theorem rpcServer_eq {Request : Message} (h : AgreesWithTemplate Request) (t : Scalar)
    (f : CppFunction) (func : Value) (args : List String) (buf : List UInt8) :
    rpcServer Request (newResponse t) f "result" func args buf =
      if methodOf buf = func then
        (respond t (methodOf buf) (queryIdOf buf)
          (f.body (rpcArguments Request f args buf))).serialize
      else [] := by
  rw [rpcServer]
  dsimp only
  rw [(h buf).1, (h buf).2, newResponse_set (type_methodOf buf) (type_queryIdOf buf), ite_not]

theorem rpcServerN_eq_some {Request Response : Message} {f : CppFunction} {func : Value}
    {args : List String} {rpc : RpcFunc} (h : rpcServerN Request Response f func args = some rpc) :
    args.length ≤ 5 ∧ rpc = rpcServer Request Response f "result" func args := by
  unfold rpcServerN at h
  split at h <;> cases h <;> exact ⟨by simp, rfl⟩

/-- The message of each function agrees with the template, on every frame. -/
def Agreeing (defs : List (FuncDef × CppFunction)) : Prop :=
  ∀ e ∈ defs, ∀ Request ∈ protoc e.1.request, AgreesWithTemplate Request

/-- What is registered comes from a macro. -/
theorem exists_of_regisHelper {d : FuncDef} {f : CppFunction} {func : Value} {rpc : RpcFunc}
    (h : d.regisHelper f = some (func, rpc)) :
    ∃ Request t, protoc d.request = some Request ∧
      scalar? (getProtoType d.returnType) = some t ∧ literal? d.name = some func ∧
      f.Implements d ∧ d.funcArgs.length ≤ 5 ∧
      rpc = rpcServer Request (newResponse t) f "result" func (d.funcArgs.map Arg.name) := by
  obtain ⟨Request, hRequest, h⟩ := Option.bind_eq_some_iff.mp h
  obtain ⟨Response, hResponse, h⟩ := Option.bind_eq_some_iff.mp h
  obtain ⟨func', hfunc, h⟩ := Option.bind_eq_some_iff.mp h
  obtain ⟨t, ht, rfl⟩ := protoc_response hResponse
  split at h
  · rename_i hnames
    obtain ⟨-, -, himpl⟩ := hnames
    obtain ⟨rpc', hrpc, h⟩ := Option.map_eq_some_iff.mp h
    cases h
    obtain ⟨hlength, rfl⟩ := rpcServerN_eq_some hrpc
    rw [List.length_map] at hlength
    exact ⟨Request, t, hRequest, ht, hfunc, himpl, hlength, rfl⟩
  · cases h

theorem exists_of_registered {defs : List (FuncDef × CppFunction)} {func : Value} {rpc : RpcFunc}
    (h : registered defs func = some rpc) :
    ∃ e ∈ defs, e.1.regisHelper e.2 = some (func, rpc) := by
  have hmem : ∀ (rs : List (Value × RpcFunc)) (m : RpcFuncMap),
      rs.foldl (fun m r => registerRpcFunc m r.1 r.2) m func = some rpc →
        m func = some rpc ∨ (func, rpc) ∈ rs := by
    intro rs
    induction rs with
    | nil => exact fun m hm => Or.inl hm
    | cons r rs ih =>
      intro m hm
      rcases ih (registerRpcFunc m r.1 r.2) hm with hr | hrs
      · by_cases hfunc : func = r.1
        · subst hfunc
          have hself : registerRpcFunc m r.1 r.2 r.1 = some r.2 := Function.update_self ..
          rw [hself] at hr
          cases hr
          exact Or.inr (List.mem_cons_self ..)
        · have hother : registerRpcFunc m r.1 r.2 func = m func := Function.update_of_ne hfunc ..
          rw [hother] at hr
          exact Or.inl hr
      · exact Or.inr (List.mem_cons_of_mem r hrs)
  rcases hmem _ _ h with hnone | hin
  · cases hnone
  · obtain ⟨e, he, hr⟩ := List.mem_filterMap.mp hin
    exact ⟨e, he, hr⟩

end Registered

theorem agreeing_merge (defs : List (FuncDef × CppFunction)) : Agreeing defs :=
  fun _ _ _ => agreesWithTemplate_of_protoc

/-! ## The function `sub` of the example -/

/-- `int sub(int a, int b)`. -/
def subDef : FuncDef := ⟨"int", "sub", [⟨"int", "a"⟩, ⟨"int", "b"⟩]⟩

def sub : CppFunction where
  params := [.int32, .int32]
  result := .int32
  body
    | [.int32 a, .int32 b] => .int32 (a - b)
    | _ => .int32 0
  type_body vs := by
    split <;> rfl

def subName : Value := .string ⟨[115, 117, 98], by decide⟩

end CppRpc
