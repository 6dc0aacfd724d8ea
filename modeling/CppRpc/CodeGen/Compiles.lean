import CppRpc.Client.StubBuffer
import CppRpc.CodeGen.Generate

/-!
# From a definition file to the calls

`isSome_stub_iff` says which functions of a definition file have a stub, as far as
messages, macros, types and names decide it: those that fit the templates and
have no types but the ones that C++ and `protoc` share (`FuncDef.Known`).  On the
server its own functions and the variables of a macro are in the way as well,
`isSome_regisHelper`.

`call_of_definitions` is the result for a file as a whole.  Its functions are all
registered in one map, and a call of any stub reaches the function of its own
definition: the names of two functions have different literals, and no
registration replaces another one.  The request has to fit the array of the stub.
The answer is written to the array of the request, so the call has to leave room
for it.
-/

namespace CppRpc

open Proto3

/-! ## Messages that `protoc` accepts -/

theorem isSome_mapM_iff {α β : Type} {g : α → Option β} {l : List α} :
    (l.mapM g).isSome ↔ ∀ a ∈ l, (g a).isSome := by
  induction l with
  | nil => simp
  | cons a l ih =>
    rw [List.mapM_cons, List.forall_mem_cons, ← ih]
    cases g a with
    | none => simp
    | some b => cases l.mapM g <;> simp

theorem numbers_of_mapM {ls : List ProtoField} {m : Message}
    (h : ls.mapM ProtoField.field? = some m) :
    m.map Field.number = ls.map ProtoField.number := by
  induction ls generalizing m with
  | nil =>
    cases h
    rfl
  | cons l ls ih =>
    obtain ⟨f, m', hf, hm', rfl⟩ := exists_of_mapM_cons h
    obtain ⟨t, -, rfl⟩ := Option.map_eq_some_iff.mp hf
    rw [List.map_cons, List.map_cons, ih hm']

theorem isSome_protoc_iff (ls : List ProtoField) :
    (protoc ls).isSome ↔ (∀ l ∈ ls, (scalar? l.type).isSome) ∧ (ls.map ProtoField.name).Nodup ∧
      (ls.map ProtoField.number).Nodup ∧
      ∀ n ∈ ls.map ProtoField.number, 0 < n ∧ n < 536870912 := by
  have htypes : (∀ l ∈ ls, (scalar? l.type).isSome) ↔ (ls.mapM ProtoField.field?).isSome := by
    rw [isSome_mapM_iff]
    simp only [ProtoField.field?, Option.isSome_map]
  rw [htypes, protoc]
  cases hm : ls.mapM ProtoField.field? with
  | none => simp
  | some m =>
    rw [← names_of_mapM hm, ← numbers_of_mapM hm]
    simp only [Option.filter_some, Message.Valid, Option.isSome_ite, Option.isSome_some, true_and,
      List.forall_mem_map]
    exact decide_eq_true_iff

/-- C++ and `protoc` know the same types. -/
theorem isSome_scalar?_iff (type : String) :
    (scalar? (getProtoType type)).isSome ↔ (cppType? type).isSome := by
  by_cases hint : type = "int"
  · subst hint
    decide
  · by_cases hlong : type = "long"
    · subst hlong
      decide
    · by_cases hlonglong : type = "long long"
      · subst hlonglong
        decide
      · simp only [getProtoType, cppType?, hint, hlong, hlonglong, if_false, or_self]

theorem isSome_protoc_request_iff {d : FuncDef} (h : d.funcArgs.length ≤ 5) :
    (protoc d.request).isSome ↔ (∀ a ∈ d.funcArgs, (cppType? a.type).isSome) ∧
      (d.funcArgs.map Arg.name).Nodup ∧ "method" ∉ d.funcArgs.map Arg.name ∧
      "query_id" ∉ d.funcArgs.map Arg.name := by
  have htypes : (∀ l ∈ d.request, (scalar? l.type).isSome) ↔
      ∀ a ∈ d.funcArgs, (cppType? a.type).isSome := by
    simp only [FuncDef.request, List.forall_mem_cons, List.mapIdx_eq_zipIdx_map,
      List.forall_mem_map]
    constructor
    · rintro ⟨-, -, hargs⟩ a ha
      obtain ⟨j, hj, rfl⟩ := List.getElem_of_mem ha
      rw [← isSome_scalar?_iff]
      exact hargs (d.funcArgs[j], j) (List.mk_mem_zipIdx_iff_getElem?.mpr
        (List.getElem?_eq_getElem hj))
    · intro hargs
      refine ⟨rfl, rfl, fun p hp => ?_⟩
      rw [isSome_scalar?_iff]
      exact hargs p.1 (List.fst_mem_of_mem_zipIdx hp)
  have hnumbers : ∀ n ∈ d.request.map ProtoField.number, 0 < n ∧ n < 536870912 := by
    intro n hn
    rw [map_number_request, List.mem_range'_1] at hn
    omega
  have hnodup : (d.request.map ProtoField.number).Nodup := by
    rw [map_number_request]
    exact List.nodup_range'
  rw [isSome_protoc_iff, htypes, d.map_name_request, List.nodup_cons, List.nodup_cons,
    List.mem_cons, not_or]
  constructor
  · rintro ⟨hargs, ⟨⟨-, hmethod⟩, hid, hnames⟩, -⟩
    exact ⟨hargs, hnames, hmethod, hid⟩
  · rintro ⟨hargs, hnames, hmethod, hid⟩
    exact ⟨hargs, ⟨⟨by decide, hmethod⟩, hid, hnames⟩, hnodup, hnumbers⟩

theorem isSome_protoc_response_iff (d : FuncDef) :
    (protoc d.response).isSome ↔ (cppType? d.returnType).isSome := by
  rw [isSome_protoc_iff, ← isSome_scalar?_iff]
  simp [FuncDef.response, scalar?]

/-! ## The functions -/

/-- What `protoc` and the compiler have to know of a definition. -/
structure FuncDef.Known (d : FuncDef) : Prop where
  args : ∀ a ∈ d.funcArgs, (cppType? a.type).isSome
  result : (cppType? d.returnType).isSome
  name : (literal? d.name).isSome
  named : d.Named

theorem isSome_rpcClientN_iff (Request Response : Message) (func : Value) (args : List String) :
    (rpcClientN Request Response func args).isSome ↔ args.length ≤ 5 := by
  match args with
  | [] | [_] | [_, _] | [_, _, _] | [_, _, _, _] | [_, _, _, _, _] => simp [rpcClientN]
  | _ :: _ :: _ :: _ :: _ :: _ :: _ => simp [rpcClientN]

theorem isSome_rpcServerN_iff (Request Response : Message) (f : CppFunction) (func : Value)
    (args : List String) : (rpcServerN Request Response f func args).isSome ↔ args.length ≤ 5 := by
  match args with
  | [] | [_] | [_, _] | [_, _, _] | [_, _, _, _] | [_, _, _, _, _] => simp [rpcServerN]
  | _ :: _ :: _ :: _ :: _ :: _ :: _ => simp [rpcServerN]

/-- The functions that have a stub. -/
theorem isSome_stub_iff {sig : Signature} (h : sig.Alphabetic) :
    sig.toFuncDef.stub.isSome ↔ FitsTemplates sig.funcArgs ∧ sig.toFuncDef.Known := by
  constructor
  · intro hstub
    obtain ⟨stub, hstub⟩ := Option.isSome_iff_exists.mp hstub
    obtain ⟨Request, t, func, params, result, hRequest, ht, hfunc, hparams, hresult, hlength,
      hnames, -⟩ := exists_of_stub hstub
    refine ⟨fitsTemplates_of_stub hstub, ?_, Option.isSome_of_eq_some hresult,
      Option.isSome_of_eq_some hfunc, hnames.1⟩
    exact ((isSome_protoc_request_iff hlength).mp (Option.isSome_of_eq_some hRequest)).1
  · rintro ⟨hfits, hknown⟩
    have hRequest := (isSome_protoc_request_iff (d := sig.toFuncDef) hfits.arity).mpr
      ⟨hknown.args, hfits.distinct, hfits.method, queryId_notMem h⟩
    obtain ⟨Request, hRequest⟩ := Option.isSome_iff_exists.mp hRequest
    obtain ⟨Response, hResponse⟩ := Option.isSome_iff_exists.mp
      ((isSome_protoc_response_iff sig.toFuncDef).mpr hknown.result)
    obtain ⟨func, hfunc⟩ := Option.isSome_iff_exists.mp hknown.name
    obtain ⟨result, hresult⟩ := Option.isSome_iff_exists.mp hknown.result
    obtain ⟨params, hparams⟩ := Option.isSome_iff_exists.mp (isSome_mapM_iff.mpr hknown.args)
    have hlocals : ∀ name ∈ sig.toFuncDef.funcArgs.map Arg.name, name ∉ clientLocals :=
      (locals_iff h).mpr hfits.locals
    have hbody := (isSome_rpcClientN_iff Request Response func (sig.funcArgs.map Arg.name)).mpr
      ((List.length_map _).trans_le hfits.arity)
    rw [FuncDef.stub, hRequest, hResponse, hfunc, hparams, hresult]
    simp only [Option.bind_eq_bind, Option.bind_some]
    rw [if_pos ⟨hknown.named, hlocals⟩, Option.isSome_map]
    exact hbody

/-- The server's side of a function whose stub compiles. -/
theorem isSome_regisHelper {d : FuncDef} (h : d.stub.isSome) (hserver : d.Free)
    {f : CppFunction} (himpl : f.Implements d) : (d.regisHelper f).isSome := by
  obtain ⟨stub, hstub⟩ := Option.isSome_iff_exists.mp h
  obtain ⟨Request, t, func, params, result, hRequest, ht, hfunc, -, hresult, hlength, hnames,
    -⟩ := exists_of_stub hstub
  obtain ⟨Response, hResponse⟩ := Option.isSome_iff_exists.mp
    ((isSome_protoc_response_iff d).mpr (Option.isSome_of_eq_some hresult))
  have hrpc := (isSome_rpcServerN_iff Request Response f func (d.funcArgs.map Arg.name)).mpr
    ((List.length_map _).trans_le hlength)
  rw [FuncDef.regisHelper, hRequest, hResponse, hfunc]
  simp only [Option.bind_eq_bind, Option.bind_some]
  rw [if_pos ⟨hnames.1, hserver, himpl⟩, Option.isSome_map]
  exact hrpc

/-! ## Registration -/

/-- A registration stays, if no function behind it has the same name. -/
theorem foldl_registerRpcFunc_of_notMem {rs : List (Value × RpcFunc)} {func : Value}
    (h : func ∉ rs.map Prod.fst) (m : RpcFuncMap) :
    rs.foldl (fun m r => registerRpcFunc m r.1 r.2) m func = m func := by
  induction rs generalizing m with
  | nil => rfl
  | cons r rs ih =>
    rw [List.map_cons, List.mem_cons, not_or] at h
    rw [List.foldl_cons, ih h.2]
    exact Function.update_of_ne h.1 ..

theorem registered_of_mem {defs : List (FuncDef × CppFunction)}
    (hnames : (defs.map fun e => e.1.name).Nodup) {e : FuncDef × CppFunction} (he : e ∈ defs)
    {func : Value} {rpc : RpcFunc} (hregis : e.1.regisHelper e.2 = some (func, rpc)) :
    registered defs func = some rpc := by
  obtain ⟨as, bs, rfl⟩ := List.append_of_mem he
  rw [List.map_append, List.map_cons, List.nodup_append, List.nodup_cons] at hnames
  obtain ⟨-, ⟨hbs, -⟩, -⟩ := hnames
  have hother : func ∉ (bs.filterMap fun e => e.1.regisHelper e.2).map Prod.fst := by
    intro hmem
    obtain ⟨r, hr, rfl⟩ := List.mem_map.mp hmem
    obtain ⟨e', he', hr⟩ := List.mem_filterMap.mp hr
    obtain ⟨-, -, -, -, hliteral, -⟩ := exists_of_regisHelper hregis
    obtain ⟨-, -, -, -, hliteral', -⟩ := exists_of_regisHelper hr
    exact hbs (List.mem_map.mpr ⟨e', he', literal?_inj hliteral' hliteral⟩)
  rw [registered, List.filterMap_append,
    List.filterMap_cons_some (f := fun e : FuncDef × CppFunction => e.1.regisHelper e.2) hregis,
    List.foldl_append,
    List.foldl_cons, foldl_registerRpcFunc_of_notMem hother]
  exact Function.update_self ..

/-! ## The calls -/

/-- A frame on the server: the function that is found for it, and what it
answers in the array of the frame. -/
def answer (rpcFuncs : RpcFuncMap) (buf : List UInt8) : Option (List UInt8) :=
  (handleRequest rpcFuncs buf).bind fun call => workerCaller rpcFuncs call.1 call.2

theorem answer_eq_some {rpcFuncs : RpcFuncMap} {buf out : List UInt8} :
    answer rpcFuncs buf = some out ↔
      ∃ rpc, rpcFuncs (methodOf buf) = some rpc ∧ rpc buf = out ∧ out.length ≤ buf.length := by
  rw [← workerCaller_eq_some, answer, handleRequest]
  cases h : rpcFuncs (methodOf buf) with
  | none => simp [workerCaller, h]
  | some rpc => rfl

/-- The functions of a definition file. -/
def definedFunctions (sigs : List Signature) (impl : String → CppFunction) :
    List (FuncDef × CppFunction) :=
  sigs.map fun sig => (sig.toFuncDef, impl sig.name)

/-- The method in a request of a stub. -/
theorem methodOf_stub {d : FuncDef} {stub : Value → List Value → List UInt8 × (List UInt8 → Value)}
    (h : d.stub = some stub) (queryId : BitVec 32) (vs : List Value) :
    literal? d.name = some (methodOf (stub (.int32 queryId) vs).1) := by
  obtain ⟨Request, t, func, params, result, hRequest, -, hfunc, -, -, -, -, hcall⟩ :=
    exists_of_stub h
  rw [hcall, hfunc]
  exact congrArg some (methodOf_clientRequest hRequest (type_of_literal hfunc)).symm

/-- A call whose answer comes from the function of its own definition. -/
theorem remoteCall_of_answer {d : FuncDef} {f : CppFunction} {queryId : BitVec 32}
    {vs : List Value} {call : List Value × Value} (h : remoteCall d f queryId vs = some call)
    {rpcFuncs : RpcFuncMap}
    (hfuncs : ∀ func rpc, d.regisHelper f = some (func, rpc) → rpcFuncs func = some rpc)
    (hfits : ∀ stub ∈ d.stub, ResponseFits rpcFuncs (stub (.int32 queryId) vs).1) :
    ∃ stub out, d.stub = some stub ∧
      answer rpcFuncs (stub (.int32 queryId) vs).1 = some out ∧
      (stub (.int32 queryId) vs).2 out = call.2 := by
  obtain ⟨stub, hstub, h⟩ := Option.bind_eq_some_iff.mp h
  obtain ⟨⟨func, rpc⟩, hregis, h⟩ := Option.bind_eq_some_iff.mp h
  obtain ⟨Request, -, h⟩ := Option.bind_eq_some_iff.mp h
  dsimp only at h
  split at h
  · cases h
    obtain ⟨-, -, -, -, hliteral, -⟩ := exists_of_regisHelper hregis
    have hmethod := Option.some.inj ((methodOf_stub hstub queryId vs).symm.trans hliteral)
    have hrpc := hfuncs func rpc hregis
    rw [← hmethod] at hrpc
    exact ⟨stub, rpc (stub (.int32 queryId) vs).1, hstub, answer_eq_some.mpr ⟨rpc, hrpc, rfl,
      responseFits_iff_length.mp (hfits stub hstub) rpc hrpc⟩, rfl⟩
  · cases h

/-- For every definition file that `main` accepts and the templates fit, and
every functions of the user with the declared types whose names the server leaves
to them: a call of any stub whose request fits the array of the stub and leaves
room for the result is answered by the function of its own definition, with the
arguments and the result that have made their way.  If no `long` in it needs more
than 32 bits, it returns what a local call would. -/
theorem call_of_definitions {file : List Char} {headFile : String} {sigs : List Signature}
    (h : definitions file = some (headFile, sigs)) (hcompat : Compatible sigs)
    (hknown : ∀ sig ∈ sigs, sig.toFuncDef.Known) (hserver : ∀ sig ∈ sigs, sig.toFuncDef.Free)
    {impl : String → CppFunction}
    (himpl : ∀ sig ∈ sigs, (impl sig.name).Implements sig.toFuncDef) {sig : Signature}
    (hsig : sig ∈ sigs) (queryId : BitVec 32) {vs : List Value}
    (hvs : vs.map Value.type = sig.funcArgs.map fun arg => cppType arg.type)
    (hblock : sig.toFuncDef.requestSize (.int32 queryId) vs ≤ BLOCK)
    (hroom : ∀ stub ∈ sig.toFuncDef.stub,
      LeavesRoom (definedFunctions sigs impl) (stub (.int32 queryId) vs).1) :
    ∃ stub out, sig.toFuncDef.stub = some stub ∧
      answer (registered (definedFunctions sigs impl)) (stub (.int32 queryId) vs).1 = some out ∧
      (∀ tag, NotOverrun tag (stub (.int32 queryId) vs).1 (.answered out)) ∧
      (stub (.int32 queryId) vs).2 out = transfer sig.returnArg.type ((impl sig.name).body
        (List.zipWith (fun arg v => transfer arg.type v) sig.funcArgs vs)) ∧
      (LongsFit sig.toFuncDef (impl sig.name) vs →
        (stub (.int32 queryId) vs).2 out = (impl sig.name).body vs) := by
  obtain ⟨sigs', hread, heq⟩ := Option.map_eq_some_iff.mp h
  obtain rfl : sigs' = sigs := (Prod.mk.inj heq).2
  have halpha := alphabetic_of_readDefs hread sig hsig
  have hstub := (isSome_stub_iff halpha).mpr ⟨hcompat.fits sig hsig, hknown sig hsig⟩
  have hregis := isSome_regisHelper hstub (hserver sig hsig) (himpl sig hsig)
  have hparams := params_of_implements (himpl sig hsig)
  obtain ⟨call, hcall⟩ := Option.isSome_iff_exists.mp
    ((isSome_remoteCall queryId).mpr ⟨hstub, hregis, hvs.trans hparams.symm⟩)
  obtain ⟨hargs, hresult⟩ := remoteCall_eq_some hcall
  obtain ⟨hvars, -, -⟩ := types_of_remoteCall hcall
  have hzip : call.1 = List.zipWith (fun arg v => transfer arg.type v) sig.funcArgs vs := by
    rw [hargs]
    conv_rhs => rw [← hvars]
    rw [List.zipWith_map_right]
    show _ = List.zipWith _ sig.funcArgs sig.funcArgs
    rw [List.zipWith_self]
    rfl
  have hnames : ((definedFunctions sigs' impl).map fun e => e.1.name).Nodup := by
    rw [definedFunctions, List.map_map]
    exact hcompat.names
  obtain ⟨stub, out, hstub, hout, hvalue⟩ := remoteCall_of_answer hcall
    (fun func rpc => registered_of_mem hnames (List.mem_map_of_mem hsig))
    fun stub hstub => responseFits_of_leavesRoom (agreeing_merge _) (hroom stub hstub)
  refine ⟨stub, out, hstub, hout, fun tag => ?_, ?_, fun hfit => ?_⟩
  · obtain ⟨-, -, -, hlength⟩ := answer_eq_some.mp hout
    have hrequest := length_stub hstub queryId vs
    exact (notOverrun_iff_length tag _ _).mpr ⟨by omega, Or.inl (by omega)⟩
  · rw [hvalue, hresult, hzip]
    rfl
  · obtain ⟨hvs, hbody⟩ := (transparent_call_iff hcall).mpr hfit
    rw [hvalue, hbody, hvs]

/-! ## The functions `sub` and `same` in one file -/

def subSame : List Signature :=
  [⟨⟨"int", "result"⟩, "sub", [⟨"int", "a"⟩, ⟨"int", "b"⟩]⟩,
    ⟨⟨"long", "result"⟩, "same", [⟨"long", "a"⟩]⟩]

def subOrSame (name : String) : CppFunction := if name = "sub" then sub else same

theorem definitions_subSame :
    definitions "sub.h\nint sub(int a, int b)\nlong same(long a)\n".toList =
      some ("sub.h", subSame) := rfl

theorem fitsTemplates_subSame : ∀ sig ∈ subSame, FitsTemplates sig.funcArgs := by
  simp only [subSame, List.forall_mem_cons]
  exact ⟨⟨by decide, by decide, by decide, by decide⟩,
    ⟨by decide, by decide, by decide, by decide⟩, nofun⟩

theorem known_subSame : ∀ sig ∈ subSame, sig.toFuncDef.Known := by
  simp only [subSame, List.forall_mem_cons]
  exact ⟨⟨by decide, by decide, by decide, by decide +kernel⟩,
    ⟨by decide, by decide, by decide, by decide +kernel⟩, nofun⟩

theorem implements_subSame : ∀ sig ∈ subSame, (subOrSame sig.name).Implements sig.toFuncDef := by
  simp only [subSame, List.forall_mem_cons]
  exact ⟨by decide, by decide, nofun⟩

/-- A call of the first function: the result 299 takes as much room as the
argument 300. -/
theorem call_of_definitions_sub_same :
    ∃ stub out, subDef.stub = some stub ∧
      answer (registered (definedFunctions subSame subOrSame))
        (stub (.int32 1) [.int32 300, .int32 1]).1 = some out ∧
      (stub (.int32 1) [.int32 300, .int32 1]).2 out = .int32 299 := by
  obtain ⟨stub, out, hstub, hout, -, hvalue, -⟩ := call_of_definitions definitions_subSame
    ⟨fitsTemplates_subSame, by decide⟩ known_subSame (by decide +kernel) implements_subSame
    (List.mem_cons_self ..) 1
    (show [Value.int32 300, .int32 1].map Value.type = _ from rfl) (by decide +kernel)
    (by decide +kernel)
  exact ⟨stub, out, hstub, hout, hvalue⟩

end CppRpc
