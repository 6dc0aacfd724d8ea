import CppRpc.Client.Stub
import CppRpc.CodeGen.Parse

/-!
# `main` and the writers of `CodeGen/code_gen.cc`

`definitions` is what `main` reads of a definition file, if it gets as far as to
write, and `main` the three files that it writes.  `ProtoMessage` and
`Invocation` are what the files consist of.

`Consistent` is the property of the output.  The macros that it is compared with
are the ones of the template headers, `serverMacros` and `clientMacros`, and the
variables those of `clientLocals`.  `Compatible` is the condition on the
definitions, and `consistent_iff` the result: the response and the numbers of the
fields never clash, and the names of the messages only do where two functions
have the same name (`nodup_messageNames_iff`).
-/

namespace CppRpc

open Proto3

/-! ## What is read -/

/-- `get_filename`. -/
def getFilename (filename : String) : String :=
  String.ofList (filename.toList.reverse.takeWhile (· ≠ '/')).reverse

/-- The loop of `main`, which gives up at a line that is no function. -/
def readDefs : List (List Char) → Option (List Signature)
  | [] => some []
  | func :: lines =>
      if func = [] then readDefs lines
      else
        match parseFuncDef func with
        | none => none
        | some sig => (readDefs lines).map (sig :: ·)

/-- The head file in the first line, and the functions behind it. -/
def definitions (file : List Char) : Option (String × List Signature) :=
  let lines := file.splitOn '\n'
  (readDefs lines.tail).map fun sigs => (String.ofList (lines.headD []), sigs)

/-! ## What is written -/

structure ProtoMessage where
  name : String
  fields : List ProtoField

/-- The use of a macro.  The first two arguments are `result` and `func`. -/
structure Invocation where
  name : String
  result : String
  func : String
  args : List String

def ProtoField.text (f : ProtoField) : String :=
  f.type ++ " " ++ f.name ++ " = " ++ toString f.number ++ ";\n"

def ProtoMessage.text (m : ProtoMessage) : String :=
  "message " ++ m.name ++ "\x7b\n" ++ String.join (m.fields.map ProtoField.text) ++ "\x7d\n\n"

def Invocation.text (i : Invocation) : String :=
  i.name ++ "(" ++ ", ".intercalate (i.result :: i.func :: i.args) ++ ");\n"

namespace Signature

def toFuncDef (sig : Signature) : FuncDef := ⟨sig.returnArg.type, sig.name, sig.funcArgs⟩

/-- The two messages of a function. -/
def messages (sig : Signature) : List ProtoMessage :=
  [⟨"RPC_" ++ sig.name ++ "_request", sig.toFuncDef.request⟩,
    ⟨"RPC_" ++ sig.name ++ "_response", sig.toFuncDef.response⟩]

/-- The use of a macro of the family `family`. -/
def invocation (sig : Signature) (family : String) : Invocation :=
  ⟨family ++ toString sig.funcArgs.length, sig.returnArg.name, sig.name,
    sig.funcArgs.map Arg.name⟩

/-- The stub of a function. -/
def stubText (sig : Signature) : String :=
  sig.returnArg.type ++ " " ++ sig.name ++ "(" ++
    ", ".intercalate (sig.funcArgs.map fun a => a.type ++ " " ++ a.name) ++ ")\n\x7b\n" ++
    (sig.invocation "RPC_CLIENT").text ++ "\x7d\n\n"

end Signature

def writeProto (sigs : List Signature) : String :=
  "syntax = \"proto3\";\npackage RPC;\n\n" ++
    String.join ((sigs.flatMap Signature.messages).map ProtoMessage.text)

def writeServerCc (headFile protoHeadFile : String) (sigs : List Signature) : String :=
  "#include \"RPC_server_template.h\"\n#include \"" ++ protoHeadFile ++ ".pb.h\"\n#include \"" ++
    headFile ++ "\"\n\n" ++
    String.join (sigs.map fun sig => (sig.invocation "RPC_SERVER").text)

def writeClientCc (headFile protoHeadFile : String) (sigs : List Signature) : String :=
  "#include \"RPC_client_template.h\"\n#include \"" ++ protoHeadFile ++ ".pb.h\"\n#include \"" ++
    headFile ++ "\"\n\n" ++ String.join (sigs.map Signature.stubText)

/-- The files that `main` writes, with their names. -/
def main (srcFile dstDir : String) (file : List Char) : Option (List (String × String)) :=
  (definitions file).map fun (headFile, sigs) =>
    let proto := getFilename srcFile
    [(dstDir ++ "/" ++ proto ++ ".proto", writeProto sigs),
      (dstDir ++ "/" ++ proto ++ ".server.cc", writeServerCc headFile proto sigs),
      (dstDir ++ "/" ++ proto ++ ".client.cc", writeClientCc headFile proto sigs)]

/-! ## The templates -/

/-- A macro of a template header, with the parameters behind `result` and `func`. -/
structure TemplateMacro where
  name : String
  args : List String

def serverMacros : List TemplateMacro :=
  [⟨"RPC_SERVER0", []⟩, ⟨"RPC_SERVER1", ["arg1"]⟩, ⟨"RPC_SERVER2", ["arg1", "arg2"]⟩,
    ⟨"RPC_SERVER3", ["arg1", "arg2", "arg3"]⟩, ⟨"RPC_SERVER4", ["arg1", "arg2", "arg3", "arg4"]⟩,
    ⟨"RPC_SERVER5", ["arg1", "arg2", "arg3", "arg4", "arg5"]⟩]

def clientMacros : List TemplateMacro :=
  [⟨"RPC_CLIENT0", []⟩, ⟨"RPC_CLIENT1", ["arg1"]⟩, ⟨"RPC_CLIENT2", ["arg1", "arg2"]⟩,
    ⟨"RPC_CLIENT3", ["arg1", "arg2", "arg3"]⟩, ⟨"RPC_CLIENT4", ["arg1", "arg2", "arg3", "arg4"]⟩,
    ⟨"RPC_CLIENT5", ["arg1", "arg2", "arg3", "arg4", "arg5"]⟩]

/-- `RPC_response_template`. -/
def responseTemplate : Message :=
  requestTemplate ++ [⟨"state", 3, Scalar.int32.default⟩]

/-! ## Consistent output -/

/-- The macro exists, and the number in its name is the number of arguments. -/
def Invocation.Defined (i : Invocation) (family : String) (macros : List TemplateMacro) : Prop :=
  i.name = family ++ toString i.args.length ∧
    ∃ m ∈ macros, m.name = i.name ∧ m.args.length = i.args.length

/-- The fields can be told apart, and the ones of the template are among them. -/
structure ProtoMessage.Extends (m : ProtoMessage) (template : Message) : Prop where
  names : (m.fields.map ProtoField.name).Nodup
  numbers : (m.fields.map ProtoField.number).Nodup
  template : ∀ f ∈ template, ∃ l ∈ m.fields, l.field? = some f

/-- The property of the output. -/
structure Consistent (sigs : List Signature) : Prop where
  server : ∀ sig ∈ sigs, (sig.invocation "RPC_SERVER").Defined "RPC_SERVER" serverMacros
  client : ∀ sig ∈ sigs, (sig.invocation "RPC_CLIENT").Defined "RPC_CLIENT" clientMacros
  fields : ∀ sig ∈ sigs,
    List.Forall₂ ProtoMessage.Extends sig.messages [requestTemplate, responseTemplate]
  messages : ((sigs.flatMap Signature.messages).map ProtoMessage.name).Nodup
  locals : ∀ sig ∈ sigs, ∀ name ∈ sig.funcArgs.map Arg.name, name ∉ clientLocals

/-- The condition on a function. -/
structure FitsTemplates (funcArgs : List Arg) : Prop where
  arity : funcArgs.length ≤ 5
  distinct : (funcArgs.map Arg.name).Nodup
  method : "method" ∉ funcArgs.map Arg.name
  locals : ∀ name ∈ funcArgs.map Arg.name, name ∉ ["request", "response", "len", "buf", "input"]

/-- The condition on the definitions. -/
structure Compatible (sigs : List Signature) : Prop where
  fits : ∀ sig ∈ sigs, FitsTemplates sig.funcArgs
  names : (sigs.map Signature.name).Nodup

/-! ## The macros -/

/-- A family of six macros. -/
theorem defined_iff {family : String} {macros : List TemplateMacro}
    (h : macros.map (fun m => (m.name, m.args.length)) =
      (List.range 6).map fun n => (family ++ toString n, n)) (sig : Signature) :
    (sig.invocation family).Defined family macros ↔ sig.funcArgs.length ≤ 5 := by
  have hlength : (sig.invocation family).args.length = sig.funcArgs.length := List.length_map _
  have hname : (sig.invocation family).name = family ++ toString sig.funcArgs.length := rfl
  unfold Invocation.Defined
  rw [hlength, hname]
  constructor
  · rintro ⟨-, m, hm, -, hargs⟩
    have hmem := List.mem_map_of_mem (f := fun m : TemplateMacro => (m.name, m.args.length)) hm
    rw [h] at hmem
    obtain ⟨n, hn, heq⟩ := List.mem_map.mp hmem
    obtain ⟨-, rfl⟩ := Prod.mk.inj heq
    rw [List.mem_range] at hn
    omega
  · intro hle
    have hmem : (family ++ toString sig.funcArgs.length, sig.funcArgs.length) ∈
        (List.range 6).map fun n => (family ++ toString n, n) :=
      List.mem_map.mpr ⟨sig.funcArgs.length, List.mem_range.mpr (by omega), rfl⟩
    rw [← h] at hmem
    obtain ⟨m, hm, heq⟩ := List.mem_map.mp hmem
    exact ⟨rfl, m, hm, (Prod.mk.inj heq).1, (Prod.mk.inj heq).2⟩

theorem serverMacros_names : serverMacros.map (fun m => (m.name, m.args.length)) =
    (List.range 6).map fun n => ("RPC_SERVER" ++ toString n, n) := by
  decide

theorem clientMacros_names : clientMacros.map (fun m => (m.name, m.args.length)) =
    (List.range 6).map fun n => ("RPC_CLIENT" ++ toString n, n) := by
  decide

/-! ## The messages -/

/-- The fields are numbered from one on. -/
theorem map_number_request (d : FuncDef) :
    d.request.map ProtoField.number = List.range' 1 (d.funcArgs.length + 2) := by
  rw [FuncDef.request, List.map_cons, List.map_cons, List.mapIdx_eq_zipIdx_map, List.map_map]
  show 1 :: 2 :: d.funcArgs.zipIdx.map ((· + 3) ∘ Prod.snd) = _
  rw [← List.map_map, List.zipIdx_map_snd, List.range'_succ, List.range'_succ]
  simp only [Nat.add_comm _ 3, List.map_add_range']

/-- Only the names of the parameters can clash in a request. -/
theorem extends_request_iff (name : String) (d : FuncDef) :
    ProtoMessage.Extends ⟨name, d.request⟩ requestTemplate ↔
      (d.funcArgs.map Arg.name).Nodup ∧ "method" ∉ d.funcArgs.map Arg.name ∧
        "query_id" ∉ d.funcArgs.map Arg.name := by
  have hnames : (d.request.map ProtoField.name).Nodup ↔ (d.funcArgs.map Arg.name).Nodup ∧
      "method" ∉ d.funcArgs.map Arg.name ∧ "query_id" ∉ d.funcArgs.map Arg.name := by
    rw [d.map_name_request, List.nodup_cons, List.nodup_cons, List.mem_cons, not_or]
    constructor
    · rintro ⟨⟨-, hmethod⟩, hid, hargs⟩
      exact ⟨hargs, hmethod, hid⟩
    · rintro ⟨hargs, hmethod, hid⟩
      exact ⟨⟨by decide, hmethod⟩, hid, hargs⟩
  rw [← hnames]
  constructor
  · exact ProtoMessage.Extends.names
  · intro h
    refine ⟨h, ?_, ?_⟩
    · rw [map_number_request]
      exact List.nodup_range'
    · simp only [requestTemplate, List.forall_mem_cons]
      refine ⟨⟨_, List.mem_cons_self .., rfl⟩,
        ⟨_, List.mem_cons_of_mem _ (List.mem_cons_self ..), rfl⟩, nofun⟩

/-- The response never clashes. -/
theorem extends_response (name : String) (d : FuncDef) :
    ProtoMessage.Extends ⟨name, d.response⟩ responseTemplate := by
  refine ⟨?_, ?_, ?_⟩
  · show ["method", "query_id", "state", "result"].Nodup
    decide
  · show [1, 2, 3, 4].Nodup
    decide
  · simp only [responseTemplate, requestTemplate, List.cons_append, List.nil_append,
      List.forall_mem_cons]
    refine ⟨⟨_, List.mem_cons_self .., rfl⟩,
      ⟨_, List.mem_cons_of_mem _ (List.mem_cons_self ..), rfl⟩,
      ⟨_, List.mem_cons_of_mem _ (List.mem_cons_of_mem _ (List.mem_cons_self ..)), rfl⟩, nofun⟩

theorem request_ne_response (a b : String) :
    "RPC_" ++ a ++ "_request" ≠ "RPC_" ++ b ++ "_response" := by
  intro h
  have hlast := congrArg (fun s : String => s.toList.getLast?) h
  simp only [String.toList_append, List.getLast?_append] at hlast
  exact absurd (show some 't' = some 'e' from hlast) (by decide)

/-- The messages of two functions clash where the functions have one name. -/
theorem disjoint_messageNames_iff (a b : Signature) :
    List.Disjoint (a.messages.map ProtoMessage.name) (b.messages.map ProtoMessage.name) ↔
      a.name ≠ b.name := by
  show List.Disjoint ["RPC_" ++ a.name ++ "_request", "RPC_" ++ a.name ++ "_response"]
    ["RPC_" ++ b.name ++ "_request", "RPC_" ++ b.name ++ "_response"] ↔ _
  constructor
  · intro h hname
    rw [hname] at h
    exact h (List.mem_cons_self ..) (List.mem_cons_self ..)
  · intro h x ha hb
    simp only [List.mem_cons, List.not_mem_nil, or_false] at ha hb
    rcases ha with rfl | rfl <;> rcases hb with hb | hb
    · exact h ((String.append_right_inj "RPC_").mp ((String.append_left_inj "_request").mp hb))
    · exact request_ne_response a.name b.name hb
    · exact request_ne_response b.name a.name hb.symm
    · exact h ((String.append_right_inj "RPC_").mp ((String.append_left_inj "_response").mp hb))

theorem nodup_messageNames_iff (sigs : List Signature) :
    ((sigs.flatMap Signature.messages).map ProtoMessage.name).Nodup ↔
      (sigs.map Signature.name).Nodup := by
  rw [List.map_flatMap, List.nodup_flatMap, List.Nodup, List.pairwise_map]
  have hone : ∀ sig ∈ sigs, (sig.messages.map ProtoMessage.name).Nodup := by
    intro sig _
    exact List.pairwise_pair.mpr (request_ne_response sig.name sig.name)
  constructor
  · rintro ⟨-, h⟩
    exact h.imp fun hab => (disjoint_messageNames_iff _ _).mp hab
  · intro h
    exact ⟨hone, h.imp fun hab => (disjoint_messageNames_iff _ _).mpr hab⟩

/-! ## Which output is consistent -/

/-- The functions that are read have alphabetic words only. -/
theorem alphabetic_of_readDefs {lines : List (List Char)} {sigs : List Signature}
    (h : readDefs lines = some sigs) : ∀ sig ∈ sigs, sig.Alphabetic := by
  induction lines generalizing sigs with
  | nil =>
    cases h
    exact nofun
  | cons func lines ih =>
    unfold readDefs at h
    split at h
    · exact ih h
    · split at h
      · cases h
      · rename_i sig hsig
        obtain ⟨rest, hrest, rfl⟩ := Option.map_eq_some_iff.mp h
        exact List.forall_mem_cons.mpr ⟨(alphabetic_of_parseFuncDef hsig).1, ih hrest⟩

theorem queryId_notMem {sig : Signature} (h : sig.Alphabetic) :
    "query_id" ∉ sig.funcArgs.map Arg.name := by
  intro hmem
  obtain ⟨a, ha, hname⟩ := List.mem_map.mp hmem
  have halpha := (h.args a ha).2.2 '_' (by rw [hname]; decide)
  cases halpha

/-- The names that the macros declare, apart from the one that no parameter has. -/
theorem locals_iff {sig : Signature} (h : sig.Alphabetic) :
    (∀ name ∈ sig.funcArgs.map Arg.name, name ∉ clientLocals) ↔
      ∀ name ∈ sig.funcArgs.map Arg.name,
        name ∉ ["request", "response", "len", "buf", "input"] := by
  refine forall₂_congr fun name hname => ?_
  have hid : name ≠ "query_id" := ne_of_mem_of_not_mem hname (queryId_notMem h)
  rw [clientLocals, List.mem_cons, not_or]
  exact ⟨fun hlocal => hlocal.2, fun hlocal => ⟨hid, hlocal⟩⟩

/-- A function whose stub compiles meets the condition. -/
theorem fitsTemplates_of_stub {d : FuncDef}
    {stub : Value → List Value → List UInt8 × (List UInt8 → Value)} (h : d.stub = some stub) :
    FitsTemplates d.funcArgs := by
  obtain ⟨Request, -, -, -, -, hRequest, -, -, -, -, harity, hlocals, -⟩ := exists_of_stub h
  obtain ⟨hargs, hmethod, -⟩ := args_nodup_of_protoc hRequest
  exact ⟨harity, hargs, hmethod, fun name hname hmem =>
    hlocals.2 name hname (List.mem_cons_of_mem _ hmem)⟩

/-- For every definition file on which `main` gets as far as to write: the output
is consistent if and only if the functions have distinct names and at most five
parameters each, with distinct names that are neither `method` nor the name of a
variable in the stub. -/
theorem consistent_iff {file : List Char} {headFile : String} {sigs : List Signature}
    (h : definitions file = some (headFile, sigs)) : Consistent sigs ↔ Compatible sigs := by
  obtain ⟨sigs', hread, heq⟩ := Option.map_eq_some_iff.mp h
  obtain rfl : sigs' = sigs := (Prod.mk.inj heq).2
  have halpha := alphabetic_of_readDefs hread
  constructor
  · intro hc
    refine ⟨fun sig hsig => ?_, (nodup_messageNames_iff sigs').mp hc.messages⟩
    obtain ⟨hrequest, -⟩ := List.forall₂_cons.mp (hc.fields sig hsig)
    obtain ⟨hargs, hmethod, -⟩ := (extends_request_iff _ _).mp hrequest
    exact ⟨(defined_iff serverMacros_names sig).mp (hc.server sig hsig), hargs, hmethod,
      (locals_iff (halpha sig hsig)).mp (hc.locals sig hsig)⟩
  · intro hc
    refine ⟨fun sig hsig => ?_, fun sig hsig => ?_, fun sig hsig => ?_,
      (nodup_messageNames_iff sigs').mpr hc.names, fun sig hsig => ?_⟩
    · exact (defined_iff serverMacros_names sig).mpr (hc.fits sig hsig).arity
    · exact (defined_iff clientMacros_names sig).mpr (hc.fits sig hsig).arity
    · have hrequest := (extends_request_iff ("RPC_" ++ sig.name ++ "_request") sig.toFuncDef).mpr
        ⟨(hc.fits sig hsig).distinct, (hc.fits sig hsig).method,
          queryId_notMem (halpha sig hsig)⟩
      exact .cons hrequest (.cons (extends_response _ _) .nil)
    · exact (locals_iff (halpha sig hsig)).mpr (hc.fits sig hsig).locals

/-- The first and the last function of `example/test.rpc`. -/
theorem consistent_iff_add_echo :
    ∃ sigs, definitions "add.h\nint add(int a,int b, int c)\nstring echo()".toList =
      some ("add.h", sigs) ∧ Consistent sigs := by
  have hdefs : definitions "add.h\nint add(int a,int b, int c)\nstring echo()".toList =
      some ("add.h", [⟨⟨"int", "result"⟩, "add", [⟨"int", "a"⟩, ⟨"int", "b"⟩, ⟨"int", "c"⟩]⟩,
        ⟨⟨"string", "result"⟩, "echo", []⟩]) := rfl
  refine ⟨_, hdefs, (consistent_iff hdefs).mpr ⟨?_, by decide⟩⟩
  simp only [List.forall_mem_cons]
  exact ⟨⟨by decide, by decide, by decide, by decide⟩, ⟨by decide, by decide, by decide, by decide⟩,
    nofun⟩

/-- A parameter that is called like a variable of the stub. -/
theorem parameter_len_clashes :
    ∃ sigs, definitions "a.h\nint f(int len)".toList = some ("a.h", sigs) ∧ ¬ Consistent sigs := by
  refine ⟨[⟨⟨"int", "result"⟩, "f", [⟨"int", "len"⟩]⟩], rfl, fun h => ?_⟩
  exact h.locals _ (List.mem_cons_self ..) "len" (List.mem_cons_self ..) (by decide)

end CppRpc
