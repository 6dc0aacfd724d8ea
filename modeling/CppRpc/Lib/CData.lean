import Mathlib.Data.List.Basic
import Mathlib.Tactic.SplitIfs

/-!
# C integers and byte blocks

The conversions between `int`, `unsigned int` and `size_t` on a target with
32-bit `int` and 64-bit `size_t`, the little-endian image of an `int`, and
`memcpy` between two blocks of bytes.

A C integer is an `Int` here.  Arithmetic that stays inside the type is plain
`Int` arithmetic; `toInt32`, `toUInt32` and `toSizeT` stand where C converts,
or where a sum can leave the type and wraps.

`memcpy` answers `none` when the copy would touch a byte outside one of the
two blocks.  That is undefined behaviour, and `none` always reads as such.  The
other kind that these programs can run into is the overflow of a sum of two
`int`: a ring with more than `2 ^ 30` bytes can get there.  `toInt32` wraps such
a sum, which is what the machine does where the compiler makes no use of the
overflow.
-/

namespace CppRpc.CData

/-! ## Conversions -/

/-- Conversion to a 32-bit `int`, in two's complement. -/
def toInt32 (n : Int) : Int :=
  if n % 4294967296 < 2147483648 then n % 4294967296 else n % 4294967296 - 4294967296

/-- Conversion to a 32-bit `unsigned int`. -/
def toUInt32 (n : Int) : Int := n % 4294967296

/-- Conversion to a 64-bit `size_t`. -/
def toSizeT (n : Int) : Int := n % 18446744073709551616

/-- A value that an `int` can hold converts to itself. -/
theorem toInt32_eq_self {n : Int} (h0 : -2147483648 ≤ n) (h1 : n < 2147483648) :
    toInt32 n = n := by
  unfold toInt32
  split_ifs <;> omega

theorem toInt32_bounds (n : Int) : -2147483648 ≤ toInt32 n ∧ toInt32 n < 2147483648 := by
  unfold toInt32
  split_ifs <;> omega

/-- Two values with one `unsigned int` image have one `int` image. -/
theorem toInt32_toUInt32 (n : Int) : toInt32 (toUInt32 n) = toInt32 n := by
  simp only [toInt32, toUInt32, Int.emod_emod_of_dvd _ (Int.dvd_refl _)]

theorem toUInt32_eq_self {n : Int} (h0 : 0 ≤ n) (h1 : n < 4294967296) : toUInt32 n = n :=
  Int.emod_eq_of_lt h0 h1

theorem toSizeT_eq_self {n : Int} (h0 : 0 ≤ n) (h1 : n < 18446744073709551616) :
    toSizeT n = n :=
  Int.emod_eq_of_lt h0 h1

/-! ## The little-endian image of an `int` -/

/-- The four bytes of an `int` in memory, lowest first. -/
def encodeInt (n : Int) : List UInt8 :=
  let u := (toUInt32 n).toNat
  [UInt8.ofNat u, UInt8.ofNat (u / 256), UInt8.ofNat (u / 65536), UInt8.ofNat (u / 16777216)]

/-- The `int` whose image in memory starts the byte list. -/
def decodeInt : List UInt8 → Int
  | b₀ :: b₁ :: b₂ :: b₃ :: _ =>
      toInt32 (b₀.toNat + 256 * b₁.toNat + 65536 * b₂.toNat + 16777216 * b₃.toNat : Nat)
  | _ => 0

@[simp] theorem encodeInt_length (n : Int) : (encodeInt n).length = 4 := rfl

/-- Four bytes read back as the `int` they are the image of. -/
theorem decodeInt_encodeInt_append (n : Int) (rest : List UInt8) :
    decodeInt (encodeInt n ++ rest) = toInt32 n := by
  have hu : toUInt32 n = ((toUInt32 n).toNat : Int) :=
    (Int.toNat_of_nonneg (Int.emod_nonneg n (by decide))).symm
  have hlt : (toUInt32 n).toNat < 4294967296 := by
    have := Int.emod_lt_of_pos n (show (0 : Int) < 4294967296 by decide)
    unfold toUInt32 at hu ⊢
    omega
  rw [← toInt32_toUInt32 n]
  simp only [encodeInt, List.cons_append, decodeInt, UInt8.toNat_ofNat']
  congr 1
  omega

theorem decodeInt_bounds (bs : List UInt8) :
    -2147483648 ≤ decodeInt bs ∧ decodeInt bs < 2147483648 := by
  unfold decodeInt
  split
  · exact toInt32_bounds _
  · decide

/-- Only the first four bytes count. -/
theorem decodeInt_take (bs : List UInt8) : decodeInt (bs.take 4) = decodeInt bs := by
  match bs with
  | [] | [_] | [_, _] | [_, _, _] => rfl
  | _ :: _ :: _ :: _ :: _ => rfl

/-! ## Blocks of bytes -/

/-- `memcpy(dst + dstOff, src + srcOff, n)`: the block `dst` after the copy, or
`none` when a byte outside `dst` or `src` would be touched.  A negative `n` is a
huge `size_t`, so it is outside as well. -/
def memcpy (dst : List UInt8) (dstOff : Int) (src : List UInt8) (srcOff n : Int) :
    Option (List UInt8) :=
  if 0 ≤ dstOff ∧ 0 ≤ srcOff ∧ 0 ≤ n ∧ dstOff + n ≤ dst.length ∧ srcOff + n ≤ src.length then
    some (dst.take dstOff.toNat ++ (src.drop srcOff.toNat).take n.toNat ++
      dst.drop (dstOff.toNat + n.toNat))
  else
    none

/-- A copy inside both blocks, with its offsets and length as naturals. -/
theorem memcpy_eq_some (dst src : List UInt8) (i j n : Nat)
    (hdst : i + n ≤ dst.length) (hsrc : j + n ≤ src.length) :
    memcpy dst i src j n =
      some (dst.take i ++ (src.drop j).take n ++ dst.drop (i + n)) := by
  unfold memcpy
  rw [if_pos (by omega)]
  simp only [Int.toNat_natCast]

/-- `malloc(n)` followed by `memset(.., 0, n)`.  The allocator refuses a request
above `PTRDIFF_MAX` and serves every other one. -/
def malloc (n : Int) : Option (List UInt8) :=
  if n < 9223372036854775808 then some (List.replicate n.toNat 0) else none

end CppRpc.CData
