import CppRpc.Lib.Proto3

/-!
# The messages of a function

`CodeGen/code_gen.cc` writes two messages for each function of the definition
file, and `protoc` makes a class of each.  `FuncDef` is what `parse_func_def`
answers; type and variable names are alphabetic there, so `scalar?` knows every
name that a field can have for its type.

A C++ value is a `Value` of the type that it has on the Linux target, where an
`int` has 32 bits and a `long` 64.  `convert` is the conversion from one type to
another in an assignment or a call.
-/

namespace CppRpc

open Proto3

/-! ## Definitions of functions -/

structure Arg where
  type : String
  name : String

/-- The name of the return argument is always `result`. -/
structure FuncDef where
  returnType : String
  name : String
  funcArgs : List Arg

def getProtoType (type : String) : String :=
  if type = "int" then "int32"
  else if type = "long" then "int32"
  else if type = "long long" then "int64"
  else type

/-- The types of `protoc` that `getProtoType` can answer. -/
def scalar? : String → Option Scalar
  | "int32" => some .int32
  | "int64" => some .int64
  | "float" => some .float
  | "double" => some .double
  | "bool" => some .bool
  | "string" => some .string
  | "bytes" => some .bytes
  | _ => none

/-- The type of a C++ variable. -/
def cppType? (type : String) : Option Scalar :=
  if type = "int" then some .int32
  else if type = "long" ∨ type = "long long" then some .int64
  else scalar? type

/-! ## Names -/

def cppKeywords : List String :=
  ["alignas", "alignof", "and", "asm", "auto", "bitand", "bitor", "bool", "break", "case", "catch",
    "char", "class", "compl", "concept", "const", "constexpr", "continue", "decltype", "default",
    "delete", "do", "double", "else", "enum", "explicit", "export", "extern", "false", "float",
    "for", "friend", "goto", "if", "inline", "int", "long", "mutable", "namespace", "new",
    "noexcept", "not", "nullptr", "operator", "or", "private", "protected", "public", "register",
    "requires", "return", "short", "signed", "sizeof", "static", "struct", "switch", "template",
    "this", "throw", "true", "try", "typedef", "typeid", "typename", "union", "unsigned", "using",
    "virtual", "void", "volatile", "while", "xor"]

/-- What else no function is called: the namespaces in the generated code, the
macro of `RPC_client.h`, and `main`. -/
def reservedNames : List String := ["RPC", "google", "std", "BLOCK", "main"]

/-- The names of a function and its parameters are identifiers that the generated
code can use.  The macros call the accessors of a parameter by its name.  `protoc`
gives them the name in lower case, and every class a member `descriptor` of its
own.  What the headers of the system and of the user declare is not looked at. -/
def FuncDef.Named (d : FuncDef) : Prop :=
  d.name ∉ cppKeywords ++ reservedNames ∧
    ∀ arg ∈ d.funcArgs, arg.name ∉ "descriptor" :: cppKeywords ∧
      arg.name.toList.any Char.isUpper = false

instance : DecidablePred FuncDef.Named := fun _ => inferInstanceAs (Decidable (_ ∧ _))

/-! ## Message definitions -/

/-- A line of a message definition. -/
structure ProtoField where
  type : String
  name : String
  number : Nat

namespace FuncDef

/-- The request that `write_proto` writes. -/
def request (d : FuncDef) : List ProtoField :=
  ⟨"string", "method", 1⟩ :: ⟨"int32", "query_id", 2⟩ ::
    d.funcArgs.mapIdx fun j arg => ⟨getProtoType arg.type, arg.name, j + 3⟩

/-- The response that `write_proto` writes. -/
def response (d : FuncDef) : List ProtoField :=
  [⟨"string", "method", 1⟩, ⟨"int32", "query_id", 2⟩, ⟨"int32", "state", 3⟩,
    ⟨getProtoType d.returnType, "result", 4⟩]

theorem map_name_request (d : FuncDef) :
    d.request.map ProtoField.name = "method" :: "query_id" :: d.funcArgs.map Arg.name := by
  rw [request, List.map_cons, List.map_cons, List.mapIdx_eq_zipIdx_map, List.map_map]
  show "method" :: "query_id" :: d.funcArgs.zipIdx.map (Arg.name ∘ Prod.fst) = _
  rw [← List.map_map, List.zipIdx_map_fst]

end FuncDef

def ProtoField.field? (l : ProtoField) : Option Field :=
  (scalar? l.type).map fun t => ⟨l.name, l.number, t.default⟩

/-- A new object of the class that `protoc` makes, if it accepts the message. -/
def protoc (ls : List ProtoField) : Option Message :=
  (ls.mapM ProtoField.field?).filter fun m => (m.map Field.name).Nodup ∧ m.Valid

/-- A string literal. -/
def literal? (s : String) : Option Value :=
  if h : s.toUTF8.data.toList.length < 4294967296 then some (.string ⟨_, h⟩) else none

theorem type_of_literal {s : String} {v : Value} (h : literal? s = some v) : v.type = .string := by
  unfold literal? at h
  split at h <;> cases h
  rfl

theorem isUtf8_of_literal {s : String} {bs : Bytes} (h : literal? s = some (.string bs)) :
    IsUtf8 bs.1 := by
  unfold literal? at h
  split at h
  · cases h
    exact ⟨s, rfl⟩
  · cases h

/-- Two names have one literal only if they are the same. -/
theorem literal?_inj {s t : String} {v : Value} (hs : literal? s = some v)
    (ht : literal? t = some v) : s = t := by
  unfold literal? at hs ht
  split at hs
  · split at ht
    · cases hs
      simp only [Option.some.injEq, Value.string.injEq, Subtype.mk.injEq] at ht
      apply String.toByteArray_inj.mp
      rw [← String.toUTF8_eq_toByteArray, ← String.toUTF8_eq_toByteArray]
      exact ByteArray.ext (Array.toList_inj.mp ht.symm)
    · cases ht
  · cases hs

/-- The response class, where the result has type `t`. -/
def newResponse (t : Scalar) : Message :=
  [⟨"method", 1, Scalar.string.default⟩, ⟨"query_id", 2, Scalar.int32.default⟩,
    ⟨"state", 3, Scalar.int32.default⟩, ⟨"result", 4, t.default⟩]

theorem exists_of_mapM_cons {α β : Type} {g : α → Option β} {a : α} {l : List α} {l' : List β}
    (h : (a :: l).mapM g = some l') :
    ∃ b bs, g a = some b ∧ l.mapM g = some bs ∧ l' = b :: bs := by
  rw [List.mapM_cons] at h
  obtain ⟨b, hb, h⟩ := Option.bind_eq_some_iff.mp h
  obtain ⟨bs, hbs, h⟩ := Option.bind_eq_some_iff.mp h
  exact ⟨b, bs, hb, hbs, (Option.some.inj h).symm⟩

theorem mem_of_mapM {α β : Type} {g : α → Option β} {l : List α} {l' : List β}
    (h : l.mapM g = some l') :
    (∀ a ∈ l, ∃ b ∈ l', g a = some b) ∧ ∀ b ∈ l', ∃ a ∈ l, g a = some b := by
  induction l generalizing l' with
  | nil =>
    cases h
    exact ⟨nofun, nofun⟩
  | cons a l ih =>
    obtain ⟨b, bs, hb, hbs, rfl⟩ := exists_of_mapM_cons h
    obtain ⟨hto, hfrom⟩ := ih hbs
    constructor
    · rintro a' (_ | ⟨_, ha'⟩)
      · exact ⟨b, List.mem_cons_self .., hb⟩
      · obtain ⟨b', hb', hg⟩ := hto a' ha'
        exact ⟨b', List.mem_cons_of_mem b hb', hg⟩
    · rintro b' (_ | ⟨_, hb'⟩)
      · exact ⟨a, List.mem_cons_self .., hb⟩
      · obtain ⟨a', ha', hg⟩ := hfrom b' hb'
        exact ⟨a', List.mem_cons_of_mem a ha', hg⟩

theorem map_of_mapM {α β : Type} {g : α → Option β} {l : List α} {l' : List β}
    (h : l.mapM g = some l') : l.map g = l'.map some := by
  induction l generalizing l' with
  | nil =>
    cases h
    rfl
  | cons a l ih =>
    obtain ⟨b, bs, hb, hbs, rfl⟩ := exists_of_mapM_cons h
    rw [List.map_cons, List.map_cons, hb, ih hbs]

section Protoc

variable {ls : List ProtoField} {m : Message}

theorem valid_of_protoc (h : protoc ls = some m) : m.Valid := by
  have := (Option.filter_eq_some_iff.mp h).2
  simp only [decide_eq_true_eq] at this
  exact this.2

theorem names_of_mapM (h : ls.mapM ProtoField.field? = some m) :
    m.map Field.name = ls.map ProtoField.name := by
  induction ls generalizing m with
  | nil =>
    cases h
    rfl
  | cons l ls ih =>
    obtain ⟨f, m', hf, hm', rfl⟩ := exists_of_mapM_cons h
    obtain ⟨t, -, rfl⟩ := Option.map_eq_some_iff.mp hf
    rw [List.map_cons, List.map_cons, ih hm']

theorem names_nodup_of_protoc (h : protoc ls = some m) : (ls.map ProtoField.name).Nodup := by
  obtain ⟨hm, hnames⟩ := Option.filter_eq_some_iff.mp h
  simp only [decide_eq_true_eq] at hnames
  rw [← names_of_mapM hm]
  exact hnames.1

/-- A new object has the default values. -/
theorem clear_of_protoc (h : protoc ls = some m) : m.clear = m := by
  obtain ⟨-, hfrom⟩ := mem_of_mapM (Option.filter_eq_some_iff.mp h).1
  have hclear : ∀ f ∈ m, f.clear = f := by
    intro f hf
    obtain ⟨l, -, hl⟩ := hfrom f hf
    obtain ⟨t, -, rfl⟩ := Option.map_eq_some_iff.mp hl
    simp only [Field.clear, Scalar.type_default]
  exact (List.map_congr_left hclear).trans (List.map_id m)

/-- Each line is the field that its name finds. -/
theorem find?_of_protoc (h : protoc ls = some m) {l : ProtoField} (hl : l ∈ ls) :
    ∃ t, scalar? l.type = some t ∧
      m.find? (·.name = l.name) = some ⟨l.name, l.number, t.default⟩ := by
  obtain ⟨hm, hnames⟩ := Option.filter_eq_some_iff.mp h
  simp only [decide_eq_true_eq] at hnames
  obtain ⟨f, hf, hfield⟩ := (mem_of_mapM hm).1 l hl
  obtain ⟨t, ht, rfl⟩ := Option.map_eq_some_iff.mp hfield
  refine ⟨t, ht, ?_⟩
  cases hfind : m.find? (·.name = l.name) with
  | none =>
    have := List.find?_eq_none.mp hfind _ hf
    simp at this
  | some g =>
    have hname : g.name = l.name := by simpa using List.find?_some hfind
    rw [List.inj_on_of_nodup_map hnames.1 (List.mem_of_find?_eq_some hfind) hf hname]

theorem protoc_response {d : FuncDef} (h : protoc d.response = some m) :
    ∃ t, scalar? (getProtoType d.returnType) = some t ∧ m = newResponse t := by
  obtain ⟨hm, -⟩ := Option.filter_eq_some_iff.mp h
  obtain ⟨_, _, h1, hm₁, rfl⟩ := exists_of_mapM_cons hm
  obtain ⟨_, _, h2, hm₂, rfl⟩ := exists_of_mapM_cons hm₁
  obtain ⟨_, _, h3, hm₃, rfl⟩ := exists_of_mapM_cons hm₂
  obtain ⟨_, _, h4, hm₄, rfl⟩ := exists_of_mapM_cons hm₃
  cases h1
  cases h2
  cases h3
  cases hm₄
  obtain ⟨t, ht, rfl⟩ := Option.map_eq_some_iff.mp h4
  exact ⟨t, ht, rfl⟩

theorem protoc_request {d : FuncDef} (h : protoc d.request = some m) :
    ∃ args, m = ⟨"method", 1, Scalar.string.default⟩ ::
      ⟨"query_id", 2, Scalar.int32.default⟩ :: args := by
  obtain ⟨hm, -⟩ := Option.filter_eq_some_iff.mp h
  obtain ⟨_, _, h1, hm₁, rfl⟩ := exists_of_mapM_cons hm
  obtain ⟨_, args, h2, -, rfl⟩ := exists_of_mapM_cons hm₁
  cases h1
  cases h2
  exact ⟨args, rfl⟩

/-- The parameters have distinct names, and other ones than the two fields. -/
theorem args_nodup_of_protoc {d : FuncDef} (h : protoc d.request = some m) :
    (d.funcArgs.map Arg.name).Nodup ∧ "method" ∉ d.funcArgs.map Arg.name ∧
      "query_id" ∉ d.funcArgs.map Arg.name := by
  have hnames := names_nodup_of_protoc h
  rw [d.map_name_request, List.nodup_cons, List.nodup_cons, List.mem_cons, not_or] at hnames
  exact ⟨hnames.2.2, hnames.1.2, hnames.2.1⟩

theorem find?_arg_of_protoc {d : FuncDef} (h : protoc d.request = some m) {arg : Arg}
    (harg : arg ∈ d.funcArgs) :
    ∃ number t, scalar? (getProtoType arg.type) = some t ∧
      m.find? (·.name = arg.name) = some ⟨arg.name, number, t.default⟩ := by
  obtain ⟨j, hj, rfl⟩ := List.getElem_of_mem harg
  have hl : (⟨getProtoType d.funcArgs[j].type, d.funcArgs[j].name, j + 3⟩ : ProtoField) ∈
      d.request := by
    apply List.mem_cons_of_mem
    apply List.mem_cons_of_mem
    rw [List.mem_mapIdx]
    exact ⟨j, hj, rfl⟩
  obtain ⟨t, ht, hfind⟩ := find?_of_protoc h hl
  exact ⟨j + 3, t, ht, hfind⟩

end Protoc

/-! ## Objects -/

/-- The value of a variable of type `t` that is assigned `v`.  Between the types
of one argument only the width of an integer differs. -/
def convert : Scalar → Value → Value
  | .int32, .int64 v => .int32 (v.setWidth 32)
  | .int64, .int32 v => .int64 (v.signExtend 64)
  | t, v => if v.type = t then v else t.default

@[simp] theorem type_convert (t : Scalar) (v : Value) : (convert t v).type = t := by
  unfold convert
  split
  · rfl
  · rfl
  · split
    · assumption
    · exact t.type_default

theorem convert_self {t : Scalar} {v : Value} (h : v.type = t) : convert t v = v := by
  subst h
  cases v <;> rfl

namespace Proto3

/-- The setter of a field. -/
def Field.set (name : String) (v : Value) (f : Field) : Field :=
  if f.name = name then { f with value := convert f.value.type v } else f

@[simp] theorem Field.set_name (name : String) (v : Value) (f : Field) :
    (f.set name v).name = f.name := by
  unfold set
  split <;> rfl

@[simp] theorem Field.set_number (name : String) (v : Value) (f : Field) :
    (f.set name v).number = f.number := by
  unfold set
  split <;> rfl

@[simp] theorem Field.set_clear (name : String) (v : Value) (f : Field) :
    (f.set name v).clear = f.clear := by
  unfold set
  split
  · simp only [clear, type_convert]
  · rfl

namespace Message

/-- The getter of a field.  The compiler has seen to it that the field exists. -/
def value (m : Message) (name : String) : Value := (m.get? name).getD (.bool false)

def set (m : Message) (name : String) (v : Value) : Message := m.map (Field.set name v)

variable {m : Message} {name : String} {v : Value}

theorem valid_set (h : m.Valid) : (m.set name v).Valid := by
  refine ⟨?_, fun f hf => ?_⟩
  · have hnumbers : Field.number ∘ Field.set name v = Field.number := by
      funext f
      exact f.set_number name v
    rw [set, List.map_map, hnumbers]
    exact h.1
  · obtain ⟨g, hg, rfl⟩ := List.mem_map.mp hf
    rw [Field.set_number]
    exact h.2 g hg

@[simp] theorem clear_set (m : Message) (name : String) (v : Value) :
    (m.set name v).clear = m.clear := by
  have hclear : Field.clear ∘ Field.set name v = Field.clear := by
    funext f
    exact f.set_clear name v
  rw [clear, set, List.map_map, hclear]
  rfl

theorem find?_set (name' : String) :
    (m.set name v).find? (·.name = name') = (m.find? (·.name = name')).map (Field.set name v) := by
  have hname : (fun f : Field => decide (f.name = name')) ∘ Field.set name v =
      fun f => decide (f.name = name') := by
    funext f
    rw [Function.comp_apply, Field.set_name]
  rw [set, List.find?_map, hname]

/-- A setter leaves the other fields as they are. -/
theorem value_set_of_ne {name' : String} (h : name' ≠ name) :
    (m.set name v).value name' = m.value name' := by
  rw [value, value, get?, get?, find?_set]
  cases hf : m.find? (·.name = name') with
  | none => rfl
  | some f =>
    have hname : f.name = name' := by simpa using List.find?_some hf
    have hset : f.set name v = f := if_neg (hname ▸ h)
    rw [Option.map_some, hset]

/-- The getter of a field that has been set; a new object tells its type. -/
theorem value_set {f : Field} (h : m.clear.find? (·.name = name) = some f) :
    (m.set name v).value name = convert f.value.type v := by
  rw [clear, List.find?_map] at h
  obtain ⟨g, hg, rfl⟩ := Option.map_eq_some_iff.mp h
  have hfind : m.find? (·.name = name) = some g := hg
  have hname : g.name = name := by simpa using List.find?_some hfind
  have hset : g.set name v = { g with value := convert g.value.type v } := if_pos hname
  rw [value, get?, find?_set, hfind, Option.map_some, hset, Field.clear, Scalar.type_default]
  rfl

/-- Parsing keeps the type of a field. -/
theorem type_value_merge [Parser] {f : Field} (h : m.find? (·.name = name) = some f)
    (buf : List UInt8) : ((Parser.merge m buf).value name).type = f.value.type := by
  obtain ⟨v, hv, hfind⟩ := Parser.find?_merge h buf
  rw [value, get?, hfind]
  exact hv

end Message

end Proto3

/-! ## The template -/

/-- `RPC_request_template`. -/
def requestTemplate : Message :=
  [⟨"method", 1, Scalar.string.default⟩, ⟨"query_id", 2, Scalar.int32.default⟩]

theorem find?_method : requestTemplate.find? (·.name = "method") =
    some ⟨"method", 1, Scalar.string.default⟩ :=
  rfl

theorem find?_queryId : requestTemplate.find? (·.name = "query_id") =
    some ⟨"query_id", 2, Scalar.int32.default⟩ :=
  rfl

section Template

variable [Parser]

/-- The method and the number of a request or of a response. -/
def methodOf (buf : List UInt8) : Value := (Parser.merge requestTemplate buf).value "method"

def queryIdOf (buf : List UInt8) : Value := (Parser.merge requestTemplate buf).value "query_id"

theorem type_methodOf (buf : List UInt8) : (methodOf buf).type = .string :=
  Message.type_value_merge find?_method buf

theorem type_queryIdOf (buf : List UInt8) : (queryIdOf buf).type = .int32 :=
  Message.type_value_merge find?_queryId buf

/-- The message of a function and the template read one method and one number. -/
def AgreesWithTemplate (Request : Message) : Prop :=
  ∀ buf, (Parser.merge Request buf).value "method" = methodOf buf ∧
    (Parser.merge Request buf).value "query_id" = queryIdOf buf

end Template

theorem find?_method_of_protoc {d : FuncDef} {Request : Message}
    (h : protoc d.request = some Request) :
    Request.find? (·.name = "method") = requestTemplate.find? (·.name = "method") := by
  obtain ⟨args, rfl⟩ := protoc_request h
  rfl

theorem find?_queryId_of_protoc {d : FuncDef} {Request : Message}
    (h : protoc d.request = some Request) :
    Request.find? (·.name = "query_id") = requestTemplate.find? (·.name = "query_id") := by
  obtain ⟨args, rfl⟩ := protoc_request h
  rfl

/-- So it is with the parser that stops at the first record that is none. -/
theorem agreesWithTemplate_of_protoc {d : FuncDef} {Request : Message}
    (h : protoc d.request = some Request) : AgreesWithTemplate Request := by
  intro buf
  constructor
  · rw [methodOf, Message.value, Message.value]
    exact congrArg (Option.getD · _) (Message.get?_merge_congr (find?_method_of_protoc h) buf)
  · rw [queryIdOf, Message.value, Message.value]
    exact congrArg (Option.getD · _) (Message.get?_merge_congr (find?_queryId_of_protoc h) buf)

end CppRpc
