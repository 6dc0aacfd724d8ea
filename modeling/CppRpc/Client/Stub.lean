import CppRpc.CodeGen.Messages

/-!
# `RPC_client/RPC_client_template.h`

The bodies that the macros `RPC_CLIENT0` to `RPC_CLIENT5` give to the functions
of the client, and `FuncDef.stub`, the function around one.  A call has two
parts, before and behind `send_request`: the request in `buf`, and what is
returned for the response in `buf`.

`value_clientRequest` says that the request carries each argument in the field
of its own name, and `merge_clientRequest` that the server reads it back.
-/

namespace CppRpc

open Proto3

/-! ## The macros -/

section Macros

variable (Request Response : Message) (func : Value)

/-- The object `request`, whose setters get the variables named in `args`. -/
def clientRequest (queryId : Value) (vars : String → Value) (args : List String) : Message :=
  let request := args.foldl (fun m arg => m.set arg (vars arg)) Request
  (request.set "query_id" queryId).set "method" func

/-- The body of `RPC_CLIENTn`, with `n` names in `args`: the request that it
hands to `send_request`, and what it returns for a response. -/
def rpcClient (result : String) (args : List String) (queryId : Value) (vars : String → Value) :
    List UInt8 × (List UInt8 → Value) :=
  ((clientRequest Request func queryId vars args).serialize,
    fun buf => (Response.merge buf).value result)

def rpcClient0 (result : String) :=
  rpcClient Request Response func result []

def rpcClient1 (result arg1 : String) :=
  rpcClient Request Response func result [arg1]

def rpcClient2 (result arg1 arg2 : String) :=
  rpcClient Request Response func result [arg1, arg2]

def rpcClient3 (result arg1 arg2 arg3 : String) :=
  rpcClient Request Response func result [arg1, arg2, arg3]

def rpcClient4 (result arg1 arg2 arg3 arg4 : String) :=
  rpcClient Request Response func result [arg1, arg2, arg3, arg4]

def rpcClient5 (result arg1 arg2 arg3 arg4 arg5 : String) :=
  rpcClient Request Response func result [arg1, arg2, arg3, arg4, arg5]

/-- The use of a macro that `write_client_cc` writes.  There are six macros. -/
def rpcClientN : List String →
    Option (Value → (String → Value) → List UInt8 × (List UInt8 → Value))
  | [] => some (rpcClient0 Request Response func "result")
  | [a] => some (rpcClient1 Request Response func "result" a)
  | [a, b] => some (rpcClient2 Request Response func "result" a b)
  | [a, b, c] => some (rpcClient3 Request Response func "result" a b c)
  | [a, b, c, d] => some (rpcClient4 Request Response func "result" a b c d)
  | [a, b, c, d, e] => some (rpcClient5 Request Response func "result" a b c d e)
  | _ => none

end Macros

/-- The variables that a macro declares in the body. -/
def clientLocals : List String := ["query_id", "request", "response", "len", "buf", "input"]

/-- The parameters of a function called with `vs`. -/
def parameters (names : List String) (vs : List Value) (x : String) : Value :=
  (((names.zip vs).find? (·.1 = x)).map Prod.snd).getD (.bool false)

/-- The function that `write_client_cc` writes, if the generated code
compiles. -/
def FuncDef.stub (d : FuncDef) :
    Option (Value → List Value → List UInt8 × (List UInt8 → Value)) := do
  let Request ← protoc d.request
  let Response ← protoc d.response
  let func ← literal? d.name
  let params ← d.funcArgs.mapM fun arg => cppType? arg.type
  let result ← cppType? d.returnType
  let names := d.funcArgs.map Arg.name
  if d.Named ∧ ∀ name ∈ names, name ∉ clientLocals then
    (rpcClientN Request Response func names).map fun body queryId vs =>
      let call := body queryId (parameters names (List.zipWith convert params vs))
      (call.1, fun buf => convert result (call.2 buf))
  else none

theorem map_parameters {names : List String} {vs : List Value} (h : names.Nodup)
    (hlength : names.length = vs.length) : names.map (parameters names vs) = vs := by
  induction names generalizing vs with
  | nil => exact (List.length_eq_zero_iff.mp hlength.symm).symm
  | cons name names ih =>
    obtain ⟨hname, hnames⟩ := List.nodup_cons.mp h
    match vs with
    | v :: vs =>
      have hrest : ∀ x ∈ names,
          parameters (name :: names) (v :: vs) x = parameters names vs x := by
        intro x hx
        have hne : name ≠ x := (ne_of_mem_of_not_mem hx hname).symm
        simp [parameters, hne]
      rw [List.map_cons, List.map_congr_left hrest, ih hnames (Nat.succ.inj hlength)]
      simp [parameters]

theorem rpcClientN_eq_some {Request Response : Message} {func : Value} {args : List String}
    {body : Value → (String → Value) → List UInt8 × (List UInt8 → Value)}
    (h : rpcClientN Request Response func args = some body) :
    args.length ≤ 5 ∧ body = rpcClient Request Response func "result" args := by
  unfold rpcClientN at h
  split at h <;> cases h <;> exact ⟨by simp, rfl⟩

/-- A stub comes from a macro. -/
theorem exists_of_stub {d : FuncDef} {stub : Value → List Value → List UInt8 × (List UInt8 → Value)}
    (h : d.stub = some stub) :
    ∃ Request t func params result, protoc d.request = some Request ∧
      scalar? (getProtoType d.returnType) = some t ∧ literal? d.name = some func ∧
      d.funcArgs.map (fun arg => cppType? arg.type) = params.map some ∧
      cppType? d.returnType = some result ∧ d.funcArgs.length ≤ 5 ∧
      (d.Named ∧ ∀ name ∈ d.funcArgs.map Arg.name, name ∉ clientLocals) ∧
      ∀ queryId vs,
        let names := d.funcArgs.map Arg.name
        let vars := parameters names (List.zipWith convert params vs)
        let call := rpcClient Request (newResponse t) func "result" names queryId vars
        stub queryId vs = (call.1, fun buf => convert result (call.2 buf)) := by
  obtain ⟨Request, hRequest, h⟩ := Option.bind_eq_some_iff.mp h
  obtain ⟨Response, hResponse, h⟩ := Option.bind_eq_some_iff.mp h
  obtain ⟨func, hfunc, h⟩ := Option.bind_eq_some_iff.mp h
  obtain ⟨params, hparams, h⟩ := Option.bind_eq_some_iff.mp h
  obtain ⟨result, hresult, h⟩ := Option.bind_eq_some_iff.mp h
  obtain ⟨t, ht, rfl⟩ := protoc_response hResponse
  dsimp only at h
  split at h
  · rename_i hnames
    obtain ⟨body, hbody, rfl⟩ := Option.map_eq_some_iff.mp h
    obtain ⟨hlength, rfl⟩ := rpcClientN_eq_some hbody
    rw [List.length_map] at hlength
    exact ⟨Request, t, func, params, result, hRequest, ht, hfunc, map_of_mapM hparams, hresult,
      hlength, hnames, fun _ _ => rfl⟩
  · cases h

/-! ## The request -/

section Request

variable {d : FuncDef} {Request : Message} {func queryId : Value} {vars : String → Value}
  {args : List String}

theorem valid_foldl_set {m : Message} (h : m.Valid) (vars : String → Value)
    (args : List String) : (args.foldl (fun m arg => m.set arg (vars arg)) m).Valid := by
  induction args generalizing m with
  | nil => exact h
  | cons arg args ih => exact ih (Message.valid_set h)

theorem clear_foldl_set (m : Message) (vars : String → Value) (args : List String) :
    (args.foldl (fun m arg => m.set arg (vars arg)) m).clear = m.clear := by
  induction args generalizing m with
  | nil => rfl
  | cons arg args ih => rw [List.foldl_cons, ih, Message.clear_set]

theorem value_foldl_set_of_not_mem {m : Message} {name : String} (h : name ∉ args) :
    (args.foldl (fun m arg => m.set arg (vars arg)) m).value name = m.value name := by
  induction args generalizing m with
  | nil => rfl
  | cons arg args ih =>
    rw [List.mem_cons, not_or] at h
    rw [List.foldl_cons, ih h.2, Message.value_set_of_ne h.1]

/-- Each variable is in the field of its name. -/
theorem value_foldl_set {m : Message} {name : String} {f : Field} (hargs : args.Nodup)
    (h : name ∈ args) (hf : m.clear.find? (·.name = name) = some f) :
    (args.foldl (fun m arg => m.set arg (vars arg)) m).value name =
      convert f.value.type (vars name) := by
  induction args generalizing m with
  | nil => cases h
  | cons arg args ih =>
    obtain ⟨harg, hargs⟩ := List.nodup_cons.mp hargs
    rw [List.foldl_cons]
    by_cases hname : name = arg
    · subst hname
      rw [value_foldl_set_of_not_mem harg, Message.value_set hf]
    · apply ih hargs ((List.mem_cons.mp h).resolve_left hname)
      rw [Message.clear_set]
      exact hf

theorem valid_clientRequest (h : Request.Valid) :
    (clientRequest Request func queryId vars args).Valid :=
  Message.valid_set (Message.valid_set (valid_foldl_set h vars args))

theorem clear_clientRequest :
    (clientRequest Request func queryId vars args).clear = Request.clear := by
  rw [clientRequest, Message.clear_set, Message.clear_set, clear_foldl_set]

/-- The server reads back the request of the client. -/
theorem merge_clientRequest (h : protoc d.request = some Request) :
    Parser.merge Request (clientRequest Request func queryId vars args).serialize =
      clientRequest Request func queryId vars args := by
  calc Request.merge (clientRequest Request func queryId vars args).serialize
      = (clientRequest Request func queryId vars args).clear.merge
          (clientRequest Request func queryId vars args).serialize := by
        rw [clear_clientRequest, clear_of_protoc h]
    _ = _ := Message.merge_serialize (valid_clientRequest (valid_of_protoc h))

theorem value_clientRequest_method (h : protoc d.request = some Request)
    (hfunc : func.type = .string) :
    (clientRequest Request func queryId vars args).value "method" = func := by
  have hf : ((args.foldl (fun m arg => m.set arg (vars arg)) Request).set
      "query_id" queryId).clear.find? (·.name = "method") =
        some ⟨"method", 1, Scalar.string.default⟩ := by
    rw [Message.clear_set, clear_foldl_set, clear_of_protoc h]
    obtain ⟨fields, rfl⟩ := protoc_request h
    rfl
  rw [clientRequest, Message.value_set hf]
  exact convert_self hfunc

theorem value_clientRequest_queryId (h : protoc d.request = some Request)
    (hqueryId : queryId.type = .int32) :
    (clientRequest Request func queryId vars args).value "query_id" = queryId := by
  have hf : (args.foldl (fun m arg => m.set arg (vars arg)) Request).clear.find?
      (·.name = "query_id") = some ⟨"query_id", 2, Scalar.int32.default⟩ := by
    rw [clear_foldl_set, clear_of_protoc h]
    obtain ⟨fields, rfl⟩ := protoc_request h
    rfl
  rw [clientRequest, Message.value_set_of_ne (by decide), Message.value_set hf]
  exact convert_self hqueryId

theorem methodOf_clientRequest (h : protoc d.request = some Request)
    (hfunc : func.type = .string) :
    methodOf (clientRequest Request func queryId vars args).serialize = func := by
  rw [← (agreesWithTemplate_of_protoc h _).1, merge_clientRequest h]
  exact value_clientRequest_method h hfunc

theorem queryIdOf_clientRequest (h : protoc d.request = some Request)
    (hqueryId : queryId.type = .int32) :
    queryIdOf (clientRequest Request func queryId vars args).serialize = queryId := by
  rw [← (agreesWithTemplate_of_protoc h _).2, merge_clientRequest h]
  exact value_clientRequest_queryId h hqueryId

/-- Each argument is in the field of its name. -/
theorem value_clientRequest (h : protoc d.request = some Request) {arg : Arg}
    (harg : arg ∈ d.funcArgs) :
    ∃ t, scalar? (getProtoType arg.type) = some t ∧
      (clientRequest Request func queryId vars (d.funcArgs.map Arg.name)).value arg.name =
        convert t (vars arg.name) := by
  obtain ⟨hargs, hmethod, hqueryId⟩ := args_nodup_of_protoc h
  have hname : arg.name ∈ d.funcArgs.map Arg.name := List.mem_map_of_mem harg
  obtain ⟨number, t, ht, hfind⟩ := find?_arg_of_protoc h harg
  refine ⟨t, ht, ?_⟩
  rw [← clear_of_protoc h] at hfind
  rw [clientRequest, Message.value_set_of_ne (ne_of_mem_of_not_mem hname hmethod),
    Message.value_set_of_ne (ne_of_mem_of_not_mem hname hqueryId),
    value_foldl_set hargs hname hfind, Scalar.type_default]

end Request

end CppRpc
