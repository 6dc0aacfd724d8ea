import CppRpc.CodeGen.RemoteCall
import CppRpc.Client.StubBuffer

/-!
# A client and a server of two versions

The two programs are linked with the generated code of two definition files, one
of them older.  `write_proto` numbers the parameters by their places, and the
number is all that a request has of a parameter.  So two definitions of a
function agree as far as the shorter one goes, if the fields there have the same
types (`AgreeOnWire`): the names of the parameters do not matter.

`skewedCall` is a call of the stub of one definition that the function of the
other one answers.  `skewedCall_eq` is the result: a parameter that the client
does not have is zero, and one that the server does not have is lost.
-/

namespace CppRpc

open Proto3

/-! ## The call -/

/-- The fields that the two definitions have in common are of the same types. -/
structure AgreeOnWire (d d' : FuncDef) : Prop where
  name : d'.name = d.name
  result : getProtoType d'.returnType = getProtoType d.returnType
  args : ∀ p ∈ d.funcArgs.zip d'.funcArgs, getProtoType p.2.type = getProtoType p.1.type

/-- What the user's function receives, and what the stub returns, in a call of
the stub of `d` with `vs`.  The server has the definition `d'`. -/
def skewedCall (d d' : FuncDef) (f : CppFunction) (queryId : BitVec 32) (vs : List Value) :
    Option (List Value × Value) := do
  let stub ← d.stub
  let (_, rpc) ← d'.regisHelper f
  let Request ← protoc d'.request
  let call := stub (.int32 queryId) vs
  some (rpcArguments Request f (d'.funcArgs.map Arg.name) call.1, call.2 (rpc call.1))

/-- The values in the request. -/
def FuncDef.sent (d : FuncDef) (vs : List Value) : List Value :=
  List.zipWith (fun arg v => convert (protoType arg.type) v) d.funcArgs vs

/-- The parameters of `d'`, from the request of `d`. -/
def received (d d' : FuncDef) (vs : List Value) : List Value :=
  d'.funcArgs.mapIdx fun j arg =>
    convert (cppType arg.type) ((d.sent vs)[j]?.getD (protoType arg.type).default)

section Call

variable {d d' : FuncDef} {f : CppFunction} {vs : List Value}

/-! ## The request -/

/-- A field of the server's class, with its place. -/
theorem find?_arg_getElem {Request : Message} (h : protoc d.request = some Request) {j : Nat}
    {arg : Arg} (harg : d.funcArgs[j]? = some arg) :
    Request.find? (·.name = arg.name) = some ⟨arg.name, j + 3, (protoType arg.type).default⟩ := by
  have hl : (⟨getProtoType arg.type, arg.name, j + 3⟩ : ProtoField) ∈ d.request := by
    apply List.mem_cons_of_mem
    apply List.mem_cons_of_mem
    rw [List.mem_mapIdx]
    obtain ⟨hj, harg⟩ := List.getElem?_eq_some_iff.mp harg
    exact ⟨j, hj, by rw [harg]⟩
  obtain ⟨t, ht, hfind⟩ := find?_of_protoc h hl
  rw [hfind, protoType, show scalar? (getProtoType arg.type) = some t from ht]
  rfl

/-- The fields behind the first two hold the values in their order. -/
theorem argFields_eq {Request : Message} (h : protoc d.request = some Request)
    (hvs : vs.map Value.type = d.funcArgs.map fun arg => cppType arg.type) :
    (d.argFields vs).map (fun g => (g.number, g.value)) =
      (d.sent vs).mapIdx fun j v => (j + 3, v) := by
  have hlength : d.funcArgs.length = vs.length := by
    simpa using (congrArg List.length hvs).symm
  have hvars := map_parameters (args_nodup_of_protoc h).1 ((List.length_map ..).trans hlength)
  rw [FuncDef.argFields, map_zipWith_convert hvs, FuncDef.sent]
  apply List.ext_getElem?
  intro j
  rw [List.getElem?_map, List.getElem?_mapIdx, List.getElem?_mapIdx, List.getElem?_zipWith,
    Option.map_map]
  have hj := congrArg (fun l => l[j]?) hvars
  rw [List.getElem?_map, List.getElem?_map, Option.map_map] at hj
  cases harg : d.funcArgs[j]? with
  | none => rfl
  | some arg =>
    rw [harg] at hj
    rw [← hj]
    rfl

/-- The types of the values in a request. -/
theorem type_sent {j : Nat} {v : Value} (h : (d.sent vs)[j]? = some v) :
    ∃ arg, d.funcArgs[j]? = some arg ∧ v.type = protoType arg.type := by
  rw [FuncDef.sent, List.getElem?_zipWith_eq_some] at h
  obtain ⟨arg, x, harg, -, rfl⟩ := h
  exact ⟨arg, harg, type_convert _ _⟩

/-- What the server reads in the field of a parameter. -/
theorem value_merge_sent {m fields Request' : Message} (hvalid : m.Valid) {func queryId : Value}
    (hm : m = ⟨"method", 1, func⟩ :: ⟨"query_id", 2, queryId⟩ :: fields)
    (hfields : fields.map (fun g => (g.number, g.value)) =
      (d.sent vs).mapIdx fun j v => (j + 3, v))
    (h' : protoc d'.request = some Request') (hagree : AgreeOnWire d d') {j : Nat} {arg : Arg}
    (harg : d'.funcArgs[j]? = some arg) :
    (Parser.merge Request' m.serialize).value arg.name =
      (d.sent vs)[j]?.getD (protoType arg.type).default := by
  show (Request'.merge m.serialize).value arg.name = _
  have hfind := find?_arg_getElem h' harg
  rw [Message.value]
  cases hsent : (d.sent vs)[j]? with
  | none =>
    have hlength : (d.sent vs).length ≤ j := List.getElem?_eq_none_iff.mp hsent
    have hnumber : ∀ g ∈ m, j + 3 ≠ g.number := by
      intro g hg
      rw [hm, List.mem_cons, List.mem_cons] at hg
      rcases hg with rfl | rfl | hg
      · show j + 3 ≠ 1
        omega
      · show j + 3 ≠ 2
        omega
      · have hpair : (g.number, g.value) ∈ (d.sent vs).mapIdx fun j v => (j + 3, v) := by
          rw [← hfields]
          exact List.mem_map_of_mem hg
        obtain ⟨i, hi, heq⟩ := List.mem_mapIdx.mp hpair
        have hnumber : i + 3 = g.number := (Prod.mk.inj heq).1
        omega
    rw [Message.get?_merge_of_forall_ne hvalid hfind hnumber]
    rfl
  | some v =>
    have hpair : (j + 3, v) ∈ fields.map fun g => (g.number, g.value) := by
      rw [hfields, List.mem_mapIdx]
      obtain ⟨hj, hv⟩ := List.getElem?_eq_some_iff.mp hsent
      exact ⟨j, hj, by rw [hv]⟩
    obtain ⟨g, hg, heq⟩ := List.mem_map.mp hpair
    obtain ⟨hnumber, rfl⟩ := Prod.mk.inj heq
    have hmem : g ∈ m := by
      rw [hm]
      exact List.mem_cons_of_mem _ (List.mem_cons_of_mem _ hg)
    obtain ⟨arg', harg', htype⟩ := type_sent hsent
    have hzip : (arg', arg) ∈ d.funcArgs.zip d'.funcArgs := by
      apply List.mem_of_getElem? (i := j)
      rw [List.getElem?_zip_eq_some]
      exact ⟨harg', harg⟩
    have hvalue : (protoType arg.type).default = g.value.type.default := by
      rw [htype, protoType, protoType, hagree.args _ hzip]
    rw [Message.get?_merge_of_mem hvalid hfind hmem hnumber.symm hvalue]
    rfl

/-- The parameters that the server's function is called with. -/
theorem rpcArguments_eq_received {Request Request' : Message}
    (h : protoc d.request = some Request) (h' : protoc d'.request = some Request')
    (hagree : AgreeOnWire d d') (himpl : f.Implements d')
    (hvs : vs.map Value.type = d.funcArgs.map fun arg => cppType arg.type) {func : Value}
    (hfunc : func.type = .string) (queryId : BitVec 32) :
    rpcArguments Request' f (d'.funcArgs.map Arg.name)
        (clientRequest Request func (.int32 queryId) (parameters (d.funcArgs.map Arg.name) vs)
          (d.funcArgs.map Arg.name)).serialize =
      received d d' vs := by
  have hfields := argFields_eq h hvs
  rw [FuncDef.argFields, map_zipWith_convert hvs, ← drop_clientRequest h func (.int32 queryId)]
    at hfields
  rw [rpcArguments, CppFunction.arguments, params_of_implements himpl, List.map_map,
    List.zipWith_map, List.zipWith_self]
  apply List.ext_getElem?
  intro j
  rw [List.getElem?_map, received, List.getElem?_mapIdx]
  cases harg : d'.funcArgs[j]? with
  | none => rfl
  | some arg =>
    rw [Option.map_some, Option.map_some, Function.comp_apply,
      value_merge_sent (valid_clientRequest (valid_of_protoc h)) (clientRequest_eq h hfunc rfl)
        hfields h' hagree harg]

/-! ## The result -/

theorem skewedCall_of_stub (hagree : AgreeOnWire d d')
    {stub : Value → List Value → List UInt8 × (List UInt8 → Value)} (hstub : d.stub = some stub)
    {r : Value × RpcFunc} (hregis : d'.regisHelper f = some r) (queryId : BitVec 32)
    (hvs : vs.map Value.type = d.funcArgs.map fun arg => cppType arg.type) :
    skewedCall d d' f queryId vs = some (received d d' vs,
      transfer d.returnType (f.body (received d d' vs))) := by
  obtain ⟨Request, t, func', params, result, hRequest, ht, hfunc, hparams, hresult, -, -, hcall⟩ :=
    exists_of_stub hstub
  obtain ⟨Request', t', hRequest', ht', hfunc', himpl, -, rpc_eq⟩ := exists_of_regisHelper hregis
  rw [hagree.name] at hfunc'
  rw [hagree.result] at ht'
  cases hfunc.symm.trans hfunc'
  cases ht.symm.trans ht'
  have hstring := type_of_literal hfunc
  have hvalue := hcall (.int32 queryId) vs
  rw [eq_map_cppType hparams, map_zipWith_convert hvs] at hvalue
  have harguments := rpcArguments_eq_received hRequest hRequest' hagree himpl hvs hstring queryId
  rw [skewedCall, hstub, hregis, hRequest']
  simp only [Option.bind_eq_bind, Option.bind_some, hvalue, rpcClient]
  rw [rpc_eq, rpcServer_eq (agreesWithTemplate_of_protoc hRequest'),
    methodOf_clientRequest hRequest hstring, queryIdOf_clientRequest hRequest rfl, if_pos rfl,
    harguments, value_merge_respond hstring rfl, transfer, cppType, hresult, protoType, ht]
  rfl

/-- For every two definitions that agree on the wire, and every arguments of the
stub: the function receives what was sent, and zero for what was not, and the
stub returns its result. -/
theorem skewedCall_eq (hagree : AgreeOnWire d d') (hstub : d.stub.isSome)
    (hregis : (d'.regisHelper f).isSome) (queryId : BitVec 32)
    (hvs : vs.map Value.type = d.funcArgs.map fun arg => cppType arg.type) :
    skewedCall d d' f queryId vs = some (received d d' vs,
      transfer d.returnType (f.body (received d d' vs))) := by
  obtain ⟨stub, hstub⟩ := Option.isSome_iff_exists.mp hstub
  obtain ⟨r, hregis⟩ := Option.isSome_iff_exists.mp hregis
  exact skewedCall_of_stub hagree hstub hregis queryId hvs

/-! ## A function with more parameters -/

/-- The definition with `more` parameters behind the others. -/
def FuncDef.append (d : FuncDef) (more : List Arg) : FuncDef :=
  { d with funcArgs := d.funcArgs ++ more }

/-- The parameters that a call of the shorter definition does not give. -/
def zeroArgs (more : List Arg) : List Value := more.map fun arg => (cppType arg.type).default

theorem convert_default (t t' : Scalar) : convert t t'.default = t.default := by
  cases t <;> cases t' <;> rfl

variable {more : List Arg}

theorem agreeOnWire_append : AgreeOnWire d (d.append more) := by
  refine ⟨rfl, rfl, fun p hp => ?_⟩
  obtain ⟨j, hj⟩ := List.mem_iff_getElem?.mp hp
  obtain ⟨h₁, h₂⟩ := List.getElem?_zip_eq_some.mp hj
  obtain ⟨hlt, -⟩ := List.getElem?_eq_some_iff.mp h₁
  rw [FuncDef.append, List.getElem?_append_left hlt, h₁] at h₂
  rw [Option.some.inj h₂]

theorem AgreeOnWire.symm (h : AgreeOnWire d d') : AgreeOnWire d' d := by
  refine ⟨h.name.symm, h.result.symm, fun p hp => ?_⟩
  obtain ⟨j, hj⟩ := List.mem_iff_getElem?.mp hp
  obtain ⟨h₁, h₂⟩ := List.getElem?_zip_eq_some.mp hj
  have hswap : (p.2, p.1) ∈ d.funcArgs.zip d'.funcArgs :=
    List.mem_of_getElem? (List.getElem?_zip_eq_some.mpr ⟨h₂, h₁⟩)
  exact (h.args _ hswap).symm

theorem length_sent (h : vs.length = d.funcArgs.length) :
    (d.sent vs).length = d.funcArgs.length := by
  rw [FuncDef.sent, List.length_zipWith, h, Nat.min_self]

/-- The server's function is called with values of the types of its parameters. -/
theorem types_received :
    (received d d' vs).map Value.type = d'.funcArgs.map fun arg => cppType arg.type := by
  apply List.ext_getElem?
  intro j
  rw [received, List.getElem?_map, List.getElem?_mapIdx, List.getElem?_map, Option.map_map]
  cases d'.funcArgs[j]? with
  | none => rfl
  | some arg => exact congrArg some (type_convert _ _)

/-- An old client and a new server. -/
theorem received_append (h : vs.length = d.funcArgs.length) :
    received d (d.append more) vs = received d d vs ++ zeroArgs more := by
  rw [received, FuncDef.append, List.mapIdx_append]
  congr 1
  apply List.ext_getElem?
  intro j
  have hsent : (d.sent vs)[j + d.funcArgs.length]? = none := by
    rw [List.getElem?_eq_none_iff, length_sent h]
    omega
  rw [zeroArgs, List.getElem?_mapIdx, List.getElem?_map, hsent]
  simp only [Option.getD_none, convert_default]

/-- A new client and an old server. -/
theorem received_of_append {ws : List Value} (h : vs.length = d.funcArgs.length) :
    received (d.append more) d (vs ++ ws) = received d d vs := by
  have hsent : (d.append more).sent (vs ++ ws) =
      d.sent vs ++ List.zipWith (fun arg v => convert (protoType arg.type) v) more ws := by
    rw [FuncDef.sent, FuncDef.append, List.zipWith_append h.symm]
    rfl
  apply List.ext_getElem?
  intro j
  rw [received, received, List.getElem?_mapIdx, List.getElem?_mapIdx]
  cases harg : d.funcArgs[j]? with
  | none => rfl
  | some arg =>
    obtain ⟨hj, -⟩ := List.getElem?_eq_some_iff.mp harg
    have hlt : j < (d.sent vs).length := by
      rw [length_sent h]
      exact hj
    rw [hsent, List.getElem?_append_left hlt]

/-- A call of one version is a skewed call. -/
theorem remoteCall_eq (queryId : BitVec 32) (hvs : vs.map Value.type = f.params) :
    remoteCall d f queryId vs = skewedCall d d f queryId vs := by
  rw [remoteCall, skewedCall]
  simp only [hvs, if_true]

/-- A definition gets `more` parameters, and the function with them does what the
function without them did, if they are zero.  Then the stubs of both versions
work with the functions of both versions: an old client does not notice the new
server, and on an old server what a new client gives besides is ignored. -/
theorem skewedCall_append {f f' : CppFunction} {ws : List Value} (hstub : d.stub.isSome)
    (hstub' : (d.append more).stub.isSome) (hregis : (d.regisHelper f).isSome)
    (hregis' : ((d.append more).regisHelper f').isSome)
    (hbody : ∀ xs, xs.map Value.type = f.params → f'.body (xs ++ zeroArgs more) = f.body xs)
    (queryId : BitVec 32)
    (hvs : vs.map Value.type = d.funcArgs.map fun arg => cppType arg.type)
    (hws : ws.map Value.type = more.map fun arg => cppType arg.type) :
    (skewedCall d (d.append more) f' queryId vs).map Prod.snd =
        (remoteCall d f queryId vs).map Prod.snd ∧
      skewedCall (d.append more) d f queryId (vs ++ ws) = remoteCall d f queryId vs := by
  have hlength : vs.length = d.funcArgs.length := by simpa using congrArg List.length hvs
  obtain ⟨stub, hstub⟩ := Option.isSome_iff_exists.mp hstub
  obtain ⟨stub', hstub'⟩ := Option.isSome_iff_exists.mp hstub'
  obtain ⟨r, hregis⟩ := Option.isSome_iff_exists.mp hregis
  obtain ⟨r', hregis'⟩ := Option.isSome_iff_exists.mp hregis'
  obtain ⟨-, -, -, -, -, himpl, -, -⟩ := exists_of_regisHelper hregis
  have hparams := params_of_implements himpl
  have hvs' : vs.map Value.type = f.params := by rw [hvs, hparams]
  have hself : AgreeOnWire d d := by
    have h : AgreeOnWire d (d.append []) := agreeOnWire_append
    rwa [FuncDef.append, List.append_nil] at h
  have happ : (vs ++ ws).map Value.type =
      (d.append more).funcArgs.map fun arg => cppType arg.type := by
    rw [FuncDef.append, List.map_append, List.map_append, hvs, hws]
  rw [remoteCall_eq queryId hvs', skewedCall_of_stub hself hstub hregis queryId hvs,
    skewedCall_of_stub agreeOnWire_append hstub hregis' queryId hvs,
    skewedCall_of_stub agreeOnWire_append.symm hstub' hregis queryId happ, received_append hlength,
    received_of_append hlength, hbody _ (by rw [types_received, hparams])]
  exact ⟨rfl, rfl⟩

end Call

/-! ## Versions of `sub` -/

/-- `long sub(long x, int b, int c)`. -/
def longSubDef : FuncDef := ⟨"long", "sub", [⟨"long", "x"⟩, ⟨"int", "b"⟩, ⟨"int", "c"⟩]⟩

def longSub : CppFunction where
  params := [.int64, .int32, .int32]
  result := .int64
  body
    | [.int64 x, .int32 b, .int32 c] => .int64 (x - b.signExtend 64 + c.signExtend 64)
    | _ => .int64 0
  type_body vs := by
    split <;> rfl

/-- A client that knows two parameters. -/
theorem skewedCall_eq_longSub :
    skewedCall subDef longSubDef longSub 1 [.int32 5, .int32 7] =
      some ([.int64 5, .int32 7, .int32 0], .int32 (-2)) := by
  have hagree : AgreeOnWire subDef longSubDef := ⟨rfl, rfl, by decide⟩
  have h := skewedCall_eq hagree (by decide) (by decide) (f := longSub) 1
    (show [Value.int32 5, .int32 7].map Value.type = _ from rfl)
  rw [h]
  decide

/-- `int sub(int a, int b, int c)`. -/
def subMore : CppFunction where
  params := [.int32, .int32, .int32]
  result := .int32
  body
    | [.int32 a, .int32 b, .int32 c] => .int32 (a - b + c)
    | _ => .int32 0
  type_body vs := by
    split <;> rfl

theorem skewedCall_append_sub :
    (skewedCall subDef (subDef.append [⟨"int", "c"⟩]) subMore 1 [.int32 5, .int32 7]).map Prod.snd =
        (remoteCall subDef sub 1 [.int32 5, .int32 7]).map Prod.snd ∧
      skewedCall (subDef.append [⟨"int", "c"⟩]) subDef sub 1 ([.int32 5, .int32 7] ++ [.int32 9]) =
        remoteCall subDef sub 1 [.int32 5, .int32 7] := by
  refine skewedCall_append (by decide) (by decide) (by decide) (by decide) ?_ 1 rfl rfl
  intro xs hxs
  match xs with
  | [.int32 a, .int32 b] =>
    show Value.int32 (a - b + 0#32) = .int32 (a - b)
    rw [BitVec.add_zero]

end CppRpc
