import CppRpc.Lib.CData

/-!
# The buffers of `RPC_util/buffer.h` and `buffer.cc`

The functions as the code computes them.  `BufferCacheBase` is the ring with
two indices, `head` and `tail`, that each range over `0 .. capacity` and no
count of its own; `BufferCache` adds the packages, a `Header` followed by its
payload.

Every function that copies bytes answers `none` when a copy leaves a block
(see `CData.memcpy`).  A function that changes its argument through a
reference returns the new value.  `int` arithmetic is written with `toInt32`
where the sum of two indices can pass `INT_MAX`, as the build does it (see
`Lib.CData`); the other sums stay in range.

The mutex is not here: a locked function is one atomic step of the systems
built on this module.  `have_a_look` takes no lock.  `haveALook` is its call
with nothing in between, and `lookStep` takes it one read of `m_tail` at a time;
`finishLook_compare` says that the steps, one after the other, are the call.
`Net.WritePump` has the writers between them, with the two writes of a package
apart, and `Client.WriteInterest` is built on it.  `Client.SendRequest` and
`Net.Delivery` take the whole look as one step.
-/

namespace CppRpc

open CData

/-! ## Header and Buffer -/

/-- `Header`: the eight bytes in front of every payload. -/
structure Header where
  magic : Int
  length : Int
  deriving DecidableEq, Repr

/-- `Buffer`.  `data` is the allocation behind the pointer, and a null pointer
is the empty block. -/
structure Buffer where
  capacity : Int
  length : Int
  data : List UInt8
  deriving DecidableEq, Repr

/-- `MAGIC`, an `unsigned int` constant. -/
def MAGIC : Int := 0xa2b3c4d5

/-- `sizeof(Header)`. -/
def sizeofHeader : Int := 8

/-- The bytes of a header in memory. -/
def Header.bytes (h : Header) : List UInt8 := encodeInt h.magic ++ encodeInt h.length

/-- The header at the start of a block. -/
def Header.ofBytes (bs : List UInt8) : Header := ⟨decodeInt bs, decodeInt (bs.drop 4)⟩

/-- `buffer_calloc`.  The length is converted to `int` before it reaches
`malloc` as a `size_t`, so a length from `2 ^ 31` on asks for a huge block. -/
def bufferCalloc (len : Int) : Buffer :=
  match malloc (toSizeT (toInt32 len)) with
  | some data => ⟨toInt32 len, 0, data⟩
  | none => ⟨0, 0, []⟩

/-- `buffer_realloc`: the capacity is compared as `unsigned int`. -/
def bufferRealloc (buf : Buffer) (len : Int) : Buffer :=
  if toUInt32 buf.capacity ≥ toUInt32 len then buf else bufferCalloc len

/-! ## BufferCacheBase -/

/-- `BufferCacheBase`: `m_buffer`, `m_head` and `m_tail`. -/
structure BufferCacheBase where
  buffer : Buffer
  head : Int
  tail : Int
  deriving DecidableEq, Repr

namespace BufferCacheBase

/-- The constructor. -/
def new (size : Int) : BufferCacheBase := ⟨bufferCalloc (toUInt32 size), 0, 0⟩

def size (c : BufferCacheBase) : Int :=
  if c.head ≤ c.tail then c.tail - c.head
  else toInt32 (c.tail + c.buffer.capacity - c.head)

def capacity (c : BufferCacheBase) : Int := c.buffer.capacity

def isEmpty (c : BufferCacheBase) : Bool := c.head == c.tail

/-- `is_full`.  Its second `return`, the one with the remainder, is never
reached. -/
def isFull (c : BufferCacheBase) : Bool := toInt32 (c.tail + 1) == c.head

/-- The length a `have_a_look` or a `read` of `buf` sets. -/
def clampLength (c : BufferCacheBase) (buf : Buffer) : Buffer :=
  if buf.length > c.size then { buf with length := c.size } else buf

/-- The copies that `have_a_look` and `read` make from the ring into `buf`: one
when the bytes lie in one piece, two when they go past the end. -/
def copyOut (c : BufferCacheBase) (buf : Buffer) : Option (List UInt8) :=
  if c.buffer.capacity - c.head ≥ buf.length then
    memcpy buf.data 0 c.buffer.data c.head buf.length
  else
    let len := c.buffer.capacity - c.head
    (memcpy buf.data 0 c.buffer.data c.head len).bind fun data =>
      memcpy data len c.buffer.data 0 (buf.length - len)

/-- `have_a_look`: the return value and `buf`. -/
def haveALook (c : BufferCacheBase) (buf : Buffer) : Option (Int × Buffer) :=
  let buf := c.clampLength buf
  if c.isEmpty then some (0, buf)
  else (c.copyOut buf).map fun data => (buf.length, { buf with data })

/-- Where a thread stands in `have_a_look`. -/
inductive LookPoint
  /-- Before the test in the `size()` that `buf.length` is compared with. -/
  | compare
  /-- Behind this test, whose result is `unwrapped`, and before the `return`. -/
  | compareSize (unwrapped : Bool)
  /-- Before the test in the `size()` that `buf.length` is assigned. -/
  | assign
  | assignSize (unwrapped : Bool)
  /-- Before `is_empty()`. -/
  | test
  | copy
  deriving DecidableEq

/-- The `return` of `size()` behind its test. -/
def sizeReturn (c : BufferCacheBase) (unwrapped : Bool) : Int :=
  if unwrapped then c.tail - c.head else toInt32 (c.tail + c.buffer.capacity - c.head)

/-- `have_a_look` from one read of `m_tail` to the next: the point behind it, or
`none` at the end, and `buf`. -/
def lookStep (c : BufferCacheBase) (buf : Buffer) :
    LookPoint → Option (Option LookPoint × Buffer)
  | .compare => some (some (.compareSize (c.head ≤ c.tail)), buf)
  | .compareSize unwrapped =>
      some (some (if buf.length > c.sizeReturn unwrapped then .assign else .test), buf)
  | .assign => some (some (.assignSize (c.head ≤ c.tail)), buf)
  | .assignSize unwrapped => some (some .test, { buf with length := c.sizeReturn unwrapped })
  | .test => some (if c.isEmpty then none else some .copy, buf)
  | .copy => (c.copyOut buf).map fun data => (none, { buf with data })

/-- The rest of `have_a_look`, with nothing in between: `buf`. -/
def finishLook (c : BufferCacheBase) : Nat → LookPoint → Buffer → Option Buffer
  | 0, _, _ => none
  | fuel + 1, point, buf =>
      (c.lookStep buf point).bind fun r =>
        match r.1 with
        | none => some r.2
        | some point => c.finishLook fuel point r.2

/-- `read`: the return value, `buf` and the cache. -/
def read (c : BufferCacheBase) (buf : Buffer) : Option (Int × Buffer × BufferCacheBase) :=
  let buf := c.clampLength buf
  if c.isEmpty then some (0, buf, c)
  else (c.copyOut buf).map fun data =>
    (buf.length, { buf with data },
      { c with
        head :=
          if c.buffer.capacity - c.head ≥ buf.length then c.head + buf.length
          else buf.length - (c.buffer.capacity - c.head) })

/-- `write`: the return value and the cache. -/
def write (c : BufferCacheBase) (buf : Buffer) : Option (Int × BufferCacheBase) :=
  if c.isFull || buf.length > c.capacity - c.size || buf.length ≤ 0 then
    some (0, c)
  else
    let length := buf.length
    if c.buffer.capacity - c.tail ≥ length then
      (memcpy c.buffer.data c.tail buf.data 0 length).map fun data =>
        (length, { c with buffer := { c.buffer with data }, tail := c.tail + length })
    else
      let len := c.buffer.capacity - c.tail
      (memcpy c.buffer.data c.tail buf.data 0 len).bind fun data =>
        (memcpy data 0 buf.data len (length - len)).map fun data =>
          (length, { c with buffer := { c.buffer with data }, tail := length - len })

end BufferCacheBase

/-! ## BufferCache -/

/-- `BufferCache` adds no data to its base. -/
abbrev BufferCache := BufferCacheBase

namespace BufferCacheBase

/-- `write_package`: the header and the payload go in by two separate writes.
`len` is an `unsigned int`, and both writes see it as an `int`. -/
def writePackage (c : BufferCache) (buffer : List UInt8) (len : Int) :
    Option (Bool × BufferCache) :=
  let head : Header := ⟨toInt32 MAGIC, toInt32 len⟩
  (c.write ⟨sizeofHeader, sizeofHeader, head.bytes⟩).bind fun r =>
  if r.1 = 0 then some (false, r.2)
  else
    (r.2.write ⟨toInt32 len, toInt32 len, buffer⟩).map fun r =>
    if r.1 = 0 then (false, r.2) else (true, r.2)

/-- `read_package`: the return value, `head`, `buffer` and the cache.  Both
size checks compare an `int` with a `size_t`; in the second the sum with the
length of the header wraps at `2 ^ 64`. -/
def readPackage (c : BufferCache) (head : Header) (buffer : Buffer) :
    Option (Bool × Header × Buffer × BufferCache) :=
  if toSizeT c.size < sizeofHeader then some (false, head, buffer, c)
  else
    (c.haveALook ⟨sizeofHeader, sizeofHeader, head.bytes⟩).bind fun r =>
    -- `buf.data` is the address of `head`, so the bytes that arrive are `head`.
    let head := Header.ofBytes r.2.data
    if toUInt32 head.magic ≠ MAGIC then some (false, head, buffer, c)
    else if toSizeT c.size < toSizeT (sizeofHeader + toSizeT head.length) then
      some (false, head, buffer, c)
    else
      let buffer := bufferRealloc buffer head.length
      (c.read { r.2 with length := sizeofHeader }).bind fun r =>
      let head := Header.ofBytes r.2.1.data
      (r.2.2.read { buffer with length := head.length }).map fun r => (true, head, r.2.1, r.2.2)

end BufferCacheBase

end CppRpc
