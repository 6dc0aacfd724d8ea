import Mathlib.Data.List.Basic
import Mathlib.Algebra.Order.Group.Nat
import Mathlib.Data.List.Nodup
import CppRpc.Lib.Framing

/-!
# The proto3 wire format

Messages with scalar fields, the bytes they are serialised to, and the parser
that merges bytes into a message.

* A field with the default value of its type is not written.  Every other one is
  a record: a tag with the number of the field and a wire type, and a payload.
* The parser reads records until one of them is no record.  A field takes the
  last record that has its number and a payload of its type; records of no field,
  and those inside a group, are skipped.

`Reader` is a reader of the front of a byte list.  The records are the frames of
`recordCodec`, so `FrameParser.parseAll` is the loop of the parser.  The results
are `merge_serialize`, that a message comes back from its bytes, and
`get?_merge_congr`, that two message types with a common field read one value for
it from any bytes whatever.

What is documented of the library is this format, for bytes that are records to
the end and have UTF-8 in each `string`: the tags, varints and lengths, so the
sizes; the default values that are left out; the last record of a field; the
records of unknown fields.  `Message.merge` is a parser for all bytes.  On others
the library differs: of a string that is cut off, part may be kept, and a string
that is not UTF-8 ends the parse.  `Parser` is any parser with the documented
facts.  What holds of frames from anywhere is proved for every `Parser`; with
no other one given, `Message.merge` is meant, and the UTF-8 in the strings is the
caller's.
-/

namespace CppRpc.Proto3

/-! ## Readers -/

/-- A reader of the front of a byte list.  Bytes that arrive later do not change
what it has read. -/
structure Reader (β : Type) where
  read : List UInt8 → Option (β × List UInt8)
  length_le : ∀ {xs b r}, read xs = some (b, r) → r.length ≤ xs.length
  extend : ∀ {xs b r} (ys), read xs = some (b, r) → read (xs ++ ys) = some (b, r ++ ys)

namespace Reader

variable {β γ : Type}

/-- Reads nothing. -/
def pure (b : β) : Reader β where
  read xs := some (b, xs)
  length_le h := by cases h; exact Nat.le_refl _
  extend ys h := by cases h; rfl

def fail : Reader β where
  read _ := none
  length_le h := by cases h
  extend _ h := by cases h

/-- One reader after the other. -/
def bind (p : Reader β) (q : β → Reader γ) : Reader γ where
  read xs := (p.read xs).bind fun r => (q r.1).read r.2
  length_le := by
    intro xs c r h
    obtain ⟨⟨b, rest⟩, hp, hq⟩ := Option.bind_eq_some_iff.mp h
    exact Nat.le_trans ((q b).length_le hq) (p.length_le hp)
  extend := by
    intro xs c r ys h
    obtain ⟨⟨b, rest⟩, hp, hq⟩ := Option.bind_eq_some_iff.mp h
    rw [p.extend ys hp, Option.bind_some]
    exact (q b).extend ys hq

def map (p : Reader β) (f : β → γ) : Reader γ := p.bind fun b => pure (f b)

/-- The next `n` bytes. -/
def take (n : Nat) : Reader { bs : List UInt8 // bs.length = n } where
  read xs := if h : n ≤ xs.length then some (⟨xs.take n, List.length_take_of_le h⟩, xs.drop n)
    else none
  length_le := by
    intro xs b r h
    split at h
    · cases h
      rw [List.length_drop]
      exact Nat.sub_le ..
    · cases h
  extend := by
    intro xs b r ys h
    split at h
    · rename_i hn
      cases h
      have hn' : n ≤ (xs ++ ys).length := by
        rw [List.length_append]
        omega
      simp only [dif_pos hn', List.take_append_of_le_length hn, List.drop_append_of_le_length hn]
    · cases h

theorem read_bind {p : Reader β} {q : β → Reader γ} {xs rest : List UInt8} {b : β}
    (h : p.read xs = some (b, rest)) : (p.bind q).read xs = (q b).read rest := by
  show (p.read xs).bind _ = _
  rw [h, Option.bind_some]

theorem read_map {p : Reader β} {f : β → γ} {xs rest : List UInt8} {b : β}
    (h : p.read xs = some (b, rest)) : (p.map f).read xs = some (f b, rest) :=
  read_bind h

theorem read_take {n : Nat} (bs : { bs : List UInt8 // bs.length = n }) (rest : List UInt8) :
    (take n).read (bs.1 ++ rest) = some (bs, rest) := by
  obtain ⟨bs, rfl⟩ := bs
  have hn : bs.length ≤ (bs ++ rest).length := by simp
  show dite _ _ _ = _
  simp

end Reader

/-! ## Varints -/

/-- A number in groups of seven bits, the lowest first and at most `k` of them. -/
def encodeVarint : Nat → Nat → List UInt8
  | 0, _ => []
  | k + 1, n =>
      if n < 128 then [UInt8.ofNat n] else UInt8.ofNat (n % 128 + 128) :: encodeVarint k (n / 128)

def decodeVarint : Nat → List UInt8 → Option (Nat × List UInt8)
  | 0, _ | _, [] => none
  | k + 1, b :: bs =>
      if b.toNat < 128 then some (b.toNat, bs)
      else (decodeVarint k bs).map fun r => (b.toNat - 128 + 128 * r.1, r.2)

theorem decodeVarint_encodeVarint {k n : Nat} (h : n < 128 ^ (k + 1)) (rest : List UInt8) :
    decodeVarint (k + 1) (encodeVarint (k + 1) n ++ rest) = some (n, rest) := by
  induction k generalizing n with
  | zero =>
    have hn : n < 128 := h
    have hbyte : (UInt8.ofNat n).toNat = n := by
      rw [UInt8.toNat_ofNat']
      omega
    rw [encodeVarint, if_pos hn, List.singleton_append, decodeVarint, hbyte, if_pos hn]
  | succ k ih =>
    rw [encodeVarint]
    split
    · rename_i hn
      have hbyte : (UInt8.ofNat n).toNat = n := by
        rw [UInt8.toNat_ofNat']
        omega
      rw [List.singleton_append, decodeVarint, hbyte, if_pos hn]
    · rename_i hn
      have hbyte : (UInt8.ofNat (n % 128 + 128)).toNat = n % 128 + 128 := by
        rw [UInt8.toNat_ofNat']
        omega
      have hdiv : n / 128 < 128 ^ (k + 1) := by
        rw [Nat.pow_succ] at h
        exact Nat.div_lt_of_lt_mul (by omega)
      rw [List.cons_append, decodeVarint, hbyte, if_neg (by omega), ih hdiv, Option.map_some]
      congr 2
      omega

theorem decodeVarint_shorter {k n : Nat} {xs rest : List UInt8}
    (h : decodeVarint k xs = some (n, rest)) : rest.length < xs.length := by
  induction k generalizing n xs with
  | zero => cases h
  | succ k ih =>
    cases xs with
    | nil => cases h
    | cons b xs =>
      rw [decodeVarint] at h
      split at h
      · cases h
        exact Nat.lt_succ_self _
      · obtain ⟨⟨m, rest'⟩, hm, h⟩ := Option.map_eq_some_iff.mp h
        cases h
        exact Nat.lt_succ_of_lt (ih hm)

theorem decodeVarint_append {k n : Nat} {xs rest : List UInt8} (ys : List UInt8)
    (h : decodeVarint k xs = some (n, rest)) :
    decodeVarint k (xs ++ ys) = some (n, rest ++ ys) := by
  induction k generalizing n xs with
  | zero => cases h
  | succ k ih =>
    cases xs with
    | nil => cases h
    | cons b xs =>
      rw [List.cons_append, decodeVarint]
      rw [decodeVarint] at h
      split at h
      · rename_i hb
        cases h
        rw [if_pos hb]
      · rename_i hb
        obtain ⟨⟨m, rest'⟩, hm, h⟩ := Option.map_eq_some_iff.mp h
        cases h
        rw [if_neg hb, ih hm, Option.map_some]

def Reader.varint (k : Nat) : Reader Nat where
  read := decodeVarint k
  length_le h := Nat.le_of_lt (decodeVarint_shorter h)
  extend ys h := decodeVarint_append ys h

/-! ## Fixed-width numbers -/

/-- A number in `k` bytes, the lowest first. -/
def encodeFixed : Nat → Nat → List UInt8
  | 0, _ => []
  | k + 1, n => UInt8.ofNat n :: encodeFixed k (n / 256)

def decodeFixed : List UInt8 → Nat
  | [] => 0
  | b :: bs => b.toNat + 256 * decodeFixed bs

theorem encodeFixed_length (k n : Nat) : (encodeFixed k n).length = k := by
  induction k generalizing n with
  | zero => rfl
  | succ k ih => rw [encodeFixed, List.length_cons, ih]

theorem decodeFixed_encodeFixed {k n : Nat} (h : n < 256 ^ k) :
    decodeFixed (encodeFixed k n) = n := by
  induction k generalizing n with
  | zero =>
    rw [Nat.pow_zero] at h
    rw [encodeFixed, decodeFixed]
    omega
  | succ k ih =>
    have hdiv : n / 256 < 256 ^ k := by
      rw [Nat.pow_succ] at h
      exact Nat.div_lt_of_lt_mul (by omega)
    rw [encodeFixed, decodeFixed, ih hdiv, UInt8.toNat_ofNat']
    omega

def Reader.fixed (k : Nat) : Reader Nat := (take k).map fun bs => decodeFixed bs.1

theorem Reader.read_fixed {k n : Nat} (h : n < 256 ^ k) (rest : List UInt8) :
    (fixed k).read (encodeFixed k n ++ rest) = some (n, rest) := by
  rw [fixed, read_map (read_take ⟨encodeFixed k n, encodeFixed_length k n⟩ rest),
    decodeFixed_encodeFixed h]

/-! ## Records -/

/-- What a `string` or a `bytes` field holds. -/
abbrev Bytes := { bs : List UInt8 // bs.length < 4294967296 }

/-- The payload of a record, by its wire type.  A group is one record where it
starts and one where it ends. -/
inductive Payload
  | varint (v : BitVec 64)
  | fixed64 (v : BitVec 64)
  | len (bs : Bytes)
  | startGroup
  | endGroup
  | fixed32 (v : BitVec 32)

namespace Payload

def wireType : Payload → Nat
  | .varint _ => 0
  | .fixed64 _ => 1
  | .len _ => 2
  | .startGroup => 3
  | .endGroup => 4
  | .fixed32 _ => 5

theorem wireType_lt (p : Payload) : p.wireType < 8 := by
  unfold wireType
  split <;> omega

def encode : Payload → List UInt8
  | .varint v => encodeVarint 10 v.toNat
  | .fixed64 v => encodeFixed 8 v.toNat
  | .len bs => encodeVarint 10 bs.1.length ++ bs.1
  | .startGroup | .endGroup => []
  | .fixed32 v => encodeFixed 4 v.toNat

def reader : Nat → Reader Payload
  | 0 => (Reader.varint 10).map fun n => .varint (BitVec.ofNat 64 n)
  | 1 => (Reader.fixed 8).map fun n => .fixed64 (BitVec.ofNat 64 n)
  | 2 => (Reader.varint 10).bind fun n =>
      if h : n < 4294967296 then
        (Reader.take n).map fun bs => .len ⟨bs.1, bs.2.symm ▸ h⟩
      else .fail
  | 3 => .pure .startGroup
  | 4 => .pure .endGroup
  | 5 => (Reader.fixed 4).map fun n => .fixed32 (BitVec.ofNat 32 n)
  | _ => .fail

theorem read_encode (p : Payload) (rest : List UInt8) :
    (reader p.wireType).read (p.encode ++ rest) = some (p, rest) := by
  cases p with
  | varint v =>
    have hv : v.toNat < 128 ^ (9 + 1) := by
      have := v.isLt
      omega
    rw [wireType, reader, encode, Reader.read_map (decodeVarint_encodeVarint hv rest),
      BitVec.ofNat_toNat, BitVec.setWidth_eq]
  | fixed64 v =>
    rw [wireType, reader, encode, Reader.read_map (Reader.read_fixed (k := 8) v.isLt rest),
      BitVec.ofNat_toNat, BitVec.setWidth_eq]
  | len bs =>
    obtain ⟨bs, hbs⟩ := bs
    have hlen : bs.length < 128 ^ (9 + 1) := by omega
    rw [wireType, reader, encode, List.append_assoc,
      Reader.read_bind (decodeVarint_encodeVarint hlen _), dif_pos hbs,
      Reader.read_map (Reader.read_take ⟨bs, rfl⟩ rest)]
  | startGroup | endGroup => rfl
  | fixed32 v =>
    rw [wireType, reader, encode, Reader.read_map (Reader.read_fixed (k := 4) v.isLt rest),
      BitVec.ofNat_toNat, BitVec.setWidth_eq]

end Payload

structure Record where
  number : Nat
  payload : Payload

/-- A tag has 32 bits, and no field has the number 0. -/
def Record.reader : Reader Record :=
  (Reader.varint 5).bind fun tag =>
    if tag < 4294967296 ∧ 0 < tag / 8 then
      (Payload.reader (tag % 8)).map fun payload => ⟨tag / 8, payload⟩
    else .fail

def recordCodec : FrameCodec UInt8 Record where
  parse := Record.reader.read
  shorter := by
    intro xs r rest h
    obtain ⟨⟨tag, xs'⟩, htag, h⟩ := Option.bind_eq_some_iff.mp h
    exact Nat.lt_of_le_of_lt (Reader.length_le _ h) (decodeVarint_shorter htag)
  extend := Record.reader.extend
  Valid r := 0 < r.number ∧ r.number < 536870912
  encode r := encodeVarint 5 (r.number * 8 + r.payload.wireType) ++ r.payload.encode
  parse_encode := by
    rintro ⟨number, payload⟩ rest ⟨hpos, hlt⟩
    have hwire := payload.wireType_lt
    have htag : number * 8 + payload.wireType < 128 ^ (4 + 1) := by
      dsimp only at hlt
      omega
    have hnumber : (number * 8 + payload.wireType) / 8 = number := by omega
    have hmod : (number * 8 + payload.wireType) % 8 = payload.wireType := by omega
    dsimp only at hpos hlt
    rw [List.append_assoc, Record.reader, Reader.read_bind (decodeVarint_encodeVarint htag _),
      if_pos (by omega), hnumber, hmod, Reader.read_map (payload.read_encode rest)]

/-! ## Values -/

/-- The types of the fields. -/
inductive Scalar
  | int32
  | int64
  | float
  | double
  | bool
  | string
  | bytes
  deriving DecidableEq

/-- A `float` or a `double` is its bit pattern. -/
inductive Value
  | int32 (v : BitVec 32)
  | int64 (v : BitVec 64)
  | float (bits : BitVec 32)
  | double (bits : BitVec 64)
  | bool (v : Bool)
  | string (v : Bytes)
  | bytes (v : Bytes)
  deriving DecidableEq

namespace Value

def type : Value → Scalar
  | .int32 _ => .int32
  | .int64 _ => .int64
  | .float _ => .float
  | .double _ => .double
  | .bool _ => .bool
  | .string _ => .string
  | .bytes _ => .bytes

def toPayload : Value → Payload
  | .int32 v => .varint (v.signExtend 64)
  | .int64 v => .varint v
  | .float bits => .fixed32 bits
  | .double bits => .fixed64 bits
  | .bool v => .varint (if v then 1 else 0)
  | .string v | .bytes v => .len v

end Value

namespace Scalar

def default : Scalar → Value
  | .int32 => .int32 0
  | .int64 => .int64 0
  | .float => .float 0
  | .double => .double 0
  | .bool => .bool false
  | .string => .string ⟨[], by decide⟩
  | .bytes => .bytes ⟨[], by decide⟩

/-- What a field of the type takes from a payload, if anything. -/
def ofPayload : Scalar → Payload → Option Value
  | .int32, .varint v => some (.int32 (v.setWidth 32))
  | .int64, .varint v => some (.int64 v)
  | .float, .fixed32 bits => some (.float bits)
  | .double, .fixed64 bits => some (.double bits)
  | .bool, .varint v => some (.bool (v != 0))
  | .string, .len bs => some (.string bs)
  | .bytes, .len bs => some (.bytes bs)
  | _, _ => none

@[simp] theorem type_default (t : Scalar) : t.default.type = t := by
  cases t <;> rfl

theorem ofPayload_toPayload (v : Value) : v.type.ofPayload v.toPayload = some v := by
  cases v with
  | int32 v =>
    have hv : (v.signExtend 64).setWidth 32 = v := by
      apply BitVec.eq_of_getLsbD_eq
      intro i hi
      simp only [BitVec.getLsbD_setWidth, BitVec.getLsbD_signExtend, hi, decide_true,
        Bool.true_and, if_true, show i < 64 by omega]
    show some (Value.int32 _) = _
    rw [hv]
  | bool v => cases v <;> rfl
  | _ => rfl

theorem type_of_ofPayload {t : Scalar} {p : Payload} {v : Value} (h : t.ofPayload p = some v) :
    v.type = t := by
  unfold ofPayload at h
  split at h <;> cases h <;> rfl

end Scalar

/-! ## Messages -/

/-- A field of a message object. -/
structure Field where
  name : String
  number : Nat
  value : Value
  deriving DecidableEq

namespace Field

/-- With the default value of its type. -/
def clear (f : Field) : Field := { f with value := f.value.type.default }

/-- What is written of a field. -/
def record? (f : Field) : Option Record :=
  if f.value = f.value.type.default then none else some ⟨f.number, f.value.toPayload⟩

/-- The field after a record of the message. -/
def merge (f : Field) (r : Record) : Field :=
  if f.number = r.number then { f with value := (f.value.type.ofPayload r.payload).getD f.value }
  else f

@[simp] theorem merge_name (f : Field) (r : Record) : (f.merge r).name = f.name := by
  unfold merge
  split <;> rfl

theorem clear_eq_self {f : Field} (h : f.record? = none) : f.clear = f := by
  unfold record? at h
  split at h
  · rename_i hdefault
    unfold clear
    rw [← hdefault]
  · cases h

theorem merge_clear {f : Field} {r : Record} (h : f.record? = some r) : f.clear.merge r = f := by
  unfold record? at h
  split at h
  · cases h
  · cases h
    show ite _ _ _ = f
    simp only [clear, Scalar.type_default, Scalar.ofPayload_toPayload, Option.getD_some, if_true]

@[simp] theorem merge_type (f : Field) (r : Record) : (f.merge r).value.type = f.value.type := by
  unfold merge
  split
  · cases h : f.value.type.ofPayload r.payload with
    | none => rfl
    | some v => exact Scalar.type_of_ofPayload h
  · rfl

theorem foldl_merge_name (rs : List Record) (f : Field) : (rs.foldl merge f).name = f.name := by
  induction rs generalizing f with
  | nil => rfl
  | cons r rs ih => rw [List.foldl_cons, ih, merge_name]

/-- Records with other numbers do not matter. -/
theorem foldl_merge_of_ne {rs : List Record} {f : Field} (h : ∀ r ∈ rs, f.number ≠ r.number) :
    rs.foldl merge f = f := by
  induction rs with
  | nil => rfl
  | cons r rs ih =>
    have hr : f.merge r = f := if_neg (h r (List.mem_cons_self ..))
    rw [List.foldl_cons, hr, ih fun r' h' => h r' (List.mem_cons_of_mem r h')]

end Field

/-- The records outside all groups.  `groups` are those around the first record;
the end of another group ends the message. -/
def topLevel : List Nat → List Record → List Record
  | _, [] => []
  | groups, ⟨number, .startGroup⟩ :: rs => topLevel (number :: groups) rs
  | [], ⟨_, .endGroup⟩ :: _ => []
  | group :: groups, ⟨number, .endGroup⟩ :: rs =>
      if number = group then topLevel groups rs else []
  | [], r :: rs => r :: topLevel [] rs
  | groups, _ :: rs => topLevel groups rs

theorem topLevel_eq_self {rs : List Record}
    (h : ∀ r ∈ rs, r.payload ≠ .startGroup ∧ r.payload ≠ .endGroup) : topLevel [] rs = rs := by
  induction rs with
  | nil => rfl
  | cons r rs ih =>
    obtain ⟨hstart, hend⟩ := h r (List.mem_cons_self ..)
    have hrs := ih fun r' h' => h r' (List.mem_cons_of_mem r h')
    obtain ⟨number, payload⟩ := r
    cases payload with
    | startGroup => exact absurd rfl hstart
    | endGroup => exact absurd rfl hend
    | _ => rw [topLevel, hrs] <;> exact nofun

/-- The fields of a message object, in the order in which they are written. -/
abbrev Message := List Field

namespace Message

/-- The numbers of the fields are distinct and in the range of a tag. -/
def Valid (m : Message) : Prop :=
  (m.map Field.number).Nodup ∧ ∀ f ∈ m, 0 < f.number ∧ f.number < 536870912

instance : DecidablePred Valid := fun _ => inferInstanceAs (Decidable (_ ∧ _))

def clear (m : Message) : Message := m.map Field.clear

def records (m : Message) : List Record := m.filterMap Field.record?

def serialize (m : Message) : List UInt8 := m.records.flatMap recordCodec.encode

def byteSize (m : Message) : Nat := m.serialize.length

/-- The message with the bytes merged into it. -/
def merge (m : Message) (bytes : List UInt8) : Message :=
  m.map ((topLevel [] (recordCodec.parseAll bytes).1).foldl Field.merge)

def get? (m : Message) (name : String) : Option Value :=
  (m.find? (·.name = name)).map Field.value

theorem records_append (m m' : Message) : records (m ++ m') = records m ++ records m' :=
  List.filterMap_append

theorem byteSize_append (m m' : Message) : byteSize (m ++ m') = byteSize m + byteSize m' := by
  rw [byteSize, serialize, records_append, List.flatMap_append, List.length_append]
  rfl

theorem mem_records {m : Message} {r : Record} (h : r ∈ m.records) :
    ∃ f ∈ m, r = ⟨f.number, f.value.toPayload⟩ := by
  obtain ⟨f, hf, hr⟩ := List.mem_filterMap.mp h
  unfold Field.record? at hr
  split at hr
  · cases hr
  · cases hr
    exact ⟨f, hf, rfl⟩

/-- No field is written as a group. -/
theorem topLevel_records (m : Message) : topLevel [] m.records = m.records := by
  apply topLevel_eq_self
  intro r hr
  obtain ⟨f, -, rfl⟩ := mem_records hr
  cases f.value <;> exact ⟨nofun, nofun⟩

theorem parseAll_serialize {m : Message} (h : m.Valid) :
    recordCodec.parseAll m.serialize = (m.records, []) := by
  apply recordCodec.parseAll_encode
  intro r hr
  obtain ⟨f, hf, rfl⟩ := mem_records hr
  exact h.2 f hf

/-- A message comes back from its bytes. -/
theorem merge_serialize {m : Message} (h : m.Valid) : m.clear.merge m.serialize = m := by
  rw [merge, parseAll_serialize h, topLevel_records, clear, List.map_map]
  calc m.map (m.records.foldl Field.merge ∘ Field.clear)
      = m.map id := ?_
    _ = m := List.map_id m
  apply List.map_congr_left
  intro f hf
  obtain ⟨pre, suf, hm⟩ := List.append_of_mem hf
  have hnumbers := h.1
  rw [hm, List.map_append, List.map_cons, List.nodup_append, List.nodup_cons] at hnumbers
  obtain ⟨-, ⟨hsuf, -⟩, hpre⟩ := hnumbers
  -- The records of the fields before and behind `f` have other numbers.
  have hfpre : ∀ r ∈ records pre, f.clear.number ≠ r.number := by
    intro r hr
    obtain ⟨g, hg, rfl⟩ := mem_records hr
    exact fun heq => hpre _ (List.mem_map_of_mem hg) _ (List.mem_cons_self ..) heq.symm
  have hfsuf : ∀ r ∈ records suf, f.number ≠ r.number := by
    intro r hr
    obtain ⟨g, hg, rfl⟩ := mem_records hr
    exact fun heq => hsuf (List.mem_map.mpr ⟨g, hg, heq.symm⟩)
  rw [hm, records_append, Function.comp_apply, List.foldl_append, Field.foldl_merge_of_ne hfpre]
  cases hrecord : f.record? with
  | none =>
    rw [records, List.filterMap_cons_none hrecord, Field.clear_eq_self hrecord]
    exact Field.foldl_merge_of_ne hfsuf
  | some r =>
    rw [records, List.filterMap_cons_some hrecord, List.foldl_cons, Field.merge_clear hrecord]
    exact Field.foldl_merge_of_ne hfsuf

theorem find?_merge (m : Message) (bytes : List UInt8) (name : String) :
    (m.merge bytes).find? (·.name = name) = (m.find? (·.name = name)).map
      ((topLevel [] (recordCodec.parseAll bytes).1).foldl Field.merge) := by
  have hname : ∀ rs : List Record, (fun f : Field => decide (f.name = name)) ∘
      rs.foldl Field.merge = fun f => decide (f.name = name) := by
    intro rs
    funext f
    rw [Function.comp_apply, Field.foldl_merge_name]
  rw [merge, List.find?_map, hname]

/-- Two message types with a common field read one value for it from any
bytes. -/
theorem get?_merge_congr {m m' : Message} {name : String}
    (h : m.find? (·.name = name) = m'.find? (·.name = name)) (bytes : List UInt8) :
    (m.merge bytes).get? name = (m'.merge bytes).get? name := by
  rw [get?, get?, find?_merge, find?_merge, h]

/-! ## Another version of a message -/

/-- A field is read by its number: its name does not matter. -/
theorem foldl_merge_rename (rs : List Record) (f : Field) (name : String) :
    rs.foldl Field.merge { f with name } = { rs.foldl Field.merge f with name } := by
  induction rs generalizing f with
  | nil => rfl
  | cons r rs ih =>
    have hr : ({ f with name } : Field).merge r = { f.merge r with name } := by
      unfold Field.merge
      split <;> rfl
    rw [List.foldl_cons, List.foldl_cons, hr, ih]

/-- A message of another type reads the value of the field with its number. -/
theorem get?_merge_of_mem {m m' : Message} (h : m.Valid) {name : String} {f g : Field}
    (hf : m'.find? (·.name = name) = some f) (hg : g ∈ m) (hnumber : f.number = g.number)
    (hvalue : f.value = g.value.type.default) :
    (m'.merge m.serialize).get? name = some g.value := by
  have hself : m.map (m.records.foldl Field.merge ∘ Field.clear) = m.map id := by
    rw [← List.map_map, List.map_id]
    have hmerge := merge_serialize h
    rw [merge, parseAll_serialize h, topLevel_records] at hmerge
    exact hmerge
  have hg' : m.records.foldl Field.merge g.clear = g := List.map_inj_left.mp hself g hg
  have hclear : f = { g.clear with name := f.name } := by
    rw [Field.clear, ← hnumber, ← hvalue]
  rw [get?, find?_merge, hf, parseAll_serialize h, topLevel_records, Option.map_some,
    Option.map_some, hclear, foldl_merge_rename, hg']

/-- A field that the other type does not have keeps its value. -/
theorem get?_merge_of_forall_ne {m m' : Message} (h : m.Valid) {name : String} {f : Field}
    (hf : m'.find? (·.name = name) = some f) (hnumber : ∀ g ∈ m, f.number ≠ g.number) :
    (m'.merge m.serialize).get? name = some f.value := by
  have hkeep : m.records.foldl Field.merge f = f := by
    apply Field.foldl_merge_of_ne
    intro r hr
    obtain ⟨g, hg, rfl⟩ := mem_records hr
    exact hnumber g hg
  rw [get?, find?_merge, hf, parseAll_serialize h, topLevel_records, Option.map_some,
    Option.map_some, hkeep]

/-! ## The documented parser -/

/-- Merging bytes changes values only, and keeps their types. -/
theorem clear_merge (m : Message) (bytes : List UInt8) : (m.merge bytes).clear = m.clear := by
  rw [merge, clear, clear, List.map_map]
  apply List.map_congr_left
  intro f hf
  clear hf
  generalize topLevel [] (recordCodec.parseAll bytes).1 = rs
  rw [Function.comp_apply]
  induction rs generalizing f with
  | nil => rfl
  | cons r rs ih =>
    rw [List.foldl_cons, ih]
    unfold Field.clear
    rw [Field.merge_type, Field.merge_name]
    unfold Field.merge
    split <;> rfl

end Message

/-- What a `string` field may hold. -/
def IsUtf8 (bs : List UInt8) : Prop := ∃ s : String, bs = s.toUTF8.data.toList

/-- The bytes are records to the end, none of them a group, with UTF-8 where the
message has a `string`. -/
structure Message.Reads (m : Message) (bytes : List UInt8) : Prop where
  complete : (recordCodec.parseAll bytes).2 = []
  noGroup : ∀ r ∈ (recordCodec.parseAll bytes).1, r.payload ≠ .startGroup ∧ r.payload ≠ .endGroup
  utf8 : ∀ r ∈ (recordCodec.parseAll bytes).1, ∀ f ∈ m, f.number = r.number →
    f.value.type = .string → ∀ bs : Bytes, r.payload = .len bs → IsUtf8 bs.1

/-- A parser with the documented facts. -/
class Parser where
  merge : Message → List UInt8 → Message
  clear_merge : ∀ m bytes, (merge m bytes).clear = m.clear
  merge_eq : ∀ {m bytes}, Message.Reads m bytes → merge m bytes = m.merge bytes

instance : Parser := ⟨Message.merge, Message.clear_merge, fun _ => rfl⟩

/-- A field of a message keeps its type. -/
theorem Parser.find?_merge [Parser] {m : Message} {name : String} {f : Field}
    (h : m.find? (·.name = name) = some f) (bytes : List UInt8) :
    ∃ v : Value, v.type = f.value.type ∧
      (Parser.merge m bytes).find? (·.name = name) = some { f with value := v } := by
  have hclear : (Parser.merge m bytes).clear.find? (·.name = name) = some f.clear := by
    rw [Parser.clear_merge, Message.clear, List.find?_map]
    exact congrArg (Option.map Field.clear) h
  rw [Message.clear, List.find?_map] at hclear
  obtain ⟨g, hg, hfield⟩ := Option.map_eq_some_iff.mp hclear
  refine ⟨g.value, ?_, hg.trans ?_⟩
  · have := congrArg (fun f : Field => f.value.type) hfield
    simpa only [Field.clear, Scalar.type_default] using this
  · have hname := congrArg Field.name hfield
    have hnumber := congrArg Field.number hfield
    obtain ⟨name', number', v'⟩ := g
    obtain rfl : name' = f.name := hname
    obtain rfl : number' = f.number := hnumber
    rfl

/-- A message of another type reads a field of a serialised message, if its own
strings are UTF-8 there. -/
theorem Message.reads_serialize {m m' : Message} (h : m.Valid)
    (hutf8 : ∀ f ∈ m', f.value.type = .string → ∀ g ∈ m, f.number = g.number →
      ∀ bs : Bytes, g.value.toPayload = .len bs → IsUtf8 bs.1) : m'.Reads m.serialize := by
  have hparse := parseAll_serialize h
  refine ⟨by rw [hparse], fun r hr => ?_, fun r hr f hf hnumber htype bs hbs => ?_⟩
  · rw [hparse] at hr
    obtain ⟨g, -, rfl⟩ := mem_records hr
    cases g.value <;> exact ⟨by simp [Value.toPayload], by simp [Value.toPayload]⟩
  · rw [hparse] at hr
    obtain ⟨g, hg, rfl⟩ := mem_records hr
    exact hutf8 f hf htype g hg hnumber bs hbs

end CppRpc.Proto3
