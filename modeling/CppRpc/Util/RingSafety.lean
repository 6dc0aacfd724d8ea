import CppRpc.Util.PackageWrite

/-!
# The indices of the ring

The calls of `BufferCacheBase` with any `Buffer` of the caller.  The length of
a write may be anything up to the capacity of its block, negative numbers
included; a look and a read ask for a length in `0 .. capacity`.

`IndexSafe` is the property of a cache: head, tail and size stay in
`0 .. capacity`, and the block of the ring keeps its `capacity` bytes.  A call
whose copies leave the ring or the block of the caller, or have a negative
length, is undefined (see `CData.memcpy`); `index_safe` says as well that every
call is defined.
-/

namespace CppRpc

open CData Runs

namespace BufferCacheBase

/-- A call with the buffer of the caller. -/
inductive BlockCall
  | write (buf : Buffer)
  | read (buf : Buffer)
  | haveALook (buf : Buffer)

/-- The cache after a call. -/
def blockStep (c : BufferCacheBase) : BlockCall → Option BufferCacheBase
  | .write buf => (c.write buf).map (·.2)
  | .read buf => (c.read buf).map (·.2.2)
  | .haveALook buf => (c.haveALook buf).map fun _ => c

/-- What the callers promise. -/
def InRange : BlockCall → Prop
  | .write buf => buf.Allocated ∧ buf.length ≤ buf.capacity
  | .read buf | .haveALook buf => buf.Allocated ∧ 0 ≤ buf.length ∧ buf.length ≤ buf.capacity

/-- The property. -/
structure IndexSafe (capacity : Int) (c : BufferCacheBase) : Prop where
  head : 0 ≤ c.head ∧ c.head ≤ capacity
  tail : 0 ≤ c.tail ∧ c.tail ≤ capacity
  size : 0 ≤ c.size ∧ c.size ≤ capacity
  block : c.capacity = capacity ∧ (c.buffer.data.length : Int) = capacity

variable {c : BufferCacheBase}

theorem WF.indexSafe (w : c.WF) : c.IndexSafe c.capacity where
  head := ⟨w.head_nonneg, w.head_le⟩
  tail := ⟨w.tail_nonneg, w.tail_le⟩
  size := by
    rw [w.size_eq]
    exact ⟨Int.natCast_nonneg _, w.contents_length_le⟩
  block := ⟨rfl, w.capacity_eq.symm⟩

/-- A new cache has the capacity that it is made with. -/
theorem capacity_new {capacity : Int} (h0 : 0 ≤ capacity) (h1 : capacity < 2147483648) :
    (new capacity).capacity = capacity := by
  have hsame : toInt32 (toUInt32 capacity) = capacity := by
    rw [toInt32_toUInt32, toInt32_eq_self (by omega) h1]
  rw [BufferCacheBase.capacity, new, bufferCalloc_eq, hsame, if_pos h0]

/-- The length of a look or a read is a number of bytes in the block. -/
theorem exists_length {buf : Buffer} (hbuf : buf.Allocated) (h0 : 0 ≤ buf.length)
    (hlen : buf.length ≤ buf.capacity) :
    ∃ n : Nat, buf = ⟨buf.capacity, n, buf.data⟩ ∧ n ≤ buf.data.length := by
  obtain ⟨cap, length, data⟩ := buf
  obtain ⟨n, rfl⟩ := Int.eq_ofNat_of_zero_le h0
  have hcap := hbuf.capacity_eq
  exact ⟨n, rfl, by dsimp only at *; omega⟩

/-- Every call is defined, and keeps the invariant and the capacity. -/
theorem WF.blockStep (w : c.WF) {call : BlockCall} (hcall : InRange call) :
    ∃ c', c.blockStep call = some c' ∧ c'.WF ∧ c'.capacity = c.capacity := by
  cases call with
  | write buf =>
    obtain ⟨hbuf, hlen⟩ := hcall
    rw [hbuf.capacity_eq] at hlen
    have hcases := w.write_cases buf.capacity hlen
    rw [BufferCacheBase.blockStep]
    generalize c.write buf = r at hcases ⊢
    cases hcases with
    | rejected _ => exact ⟨c, rfl, w, rfl⟩
    | appended c' _ _ w' _ hcap _ => exact ⟨c', rfl, w', hcap⟩
    | emptied c' _ _ _ _ w' _ hcap _ => exact ⟨c', rfl, w', hcap⟩
  | read buf =>
    obtain ⟨hbuf, h0, hlen⟩ := hcall
    obtain ⟨n, hn, hdata⟩ := exists_length hbuf h0 hlen
    obtain ⟨c', hread, w', -, hcap⟩ := w.read_eq buf.capacity hdata
    refine ⟨c', ?_, w', hcap⟩
    rw [BufferCacheBase.blockStep, hn, hread]
    rfl
  | haveALook buf =>
    obtain ⟨hbuf, h0, hlen⟩ := hcall
    obtain ⟨n, hn, hdata⟩ := exists_length hbuf h0 hlen
    refine ⟨c, ?_, w, rfl⟩
    rw [BufferCacheBase.blockStep, hn, w.haveALook_eq buf.capacity hdata]
    rfl

/-- For every capacity and every sequence of calls: the indices and the size
stay in range, and every call that may follow is defined. -/
theorem index_safe (capacity : Int) (h0 : 0 ≤ capacity) (h1 : capacity < 2147483648)
    (h : ReachableIf blockStep (fun _ call => InRange call) (new capacity) c) :
    c.IndexSafe capacity ∧ ∀ call, InRange call → (c.blockStep call).isSome := by
  have hinit : (new capacity).WF ∧ (new capacity).capacity = capacity :=
    ⟨new_wf capacity, capacity_new h0 h1⟩
  obtain ⟨⟨w, hcap⟩, hdefined⟩ :=
    h.invariant_enabled (P := fun c => c.WF ∧ c.capacity = capacity) hinit
      fun c call hc hcall => by
        obtain ⟨c', hs, w', hcap⟩ := hc.1.blockStep hcall
        exact ⟨c', hs, w', hcap.trans hc.2⟩
  refine ⟨?_, hdefined⟩
  rw [← hcap]
  exact w.indexSafe

instance : DecidablePred InRange
  | .write buf => decidable_of_iff
      ((buf.capacity = buf.data.length ∧ buf.capacity < 2147483648) ∧ buf.length ≤ buf.capacity)
      (and_congr_left' ⟨fun h => ⟨h.1, h.2⟩, fun h => ⟨h.1, h.2⟩⟩)
  | .read buf | .haveALook buf => decidable_of_iff
      ((buf.capacity = buf.data.length ∧ buf.capacity < 2147483648) ∧ 0 ≤ buf.length ∧
        buf.length ≤ buf.capacity)
      (and_congr_left' ⟨fun h => ⟨h.1, h.2⟩, fun h => ⟨h.1, h.2⟩⟩)

/-- Three bytes, two of them read, a negative length, and a block that wraps. -/
theorem index_safe_wrapped :
    ∃ c : BufferCacheBase, (c.head = 2 ∧ c.tail = 1) ∧
      (c.IndexSafe 4 ∧ ∀ call, InRange call → (c.blockStep call).isSome) := by
  obtain ⟨c, hc, hP⟩ : ∃ c : BufferCacheBase,
      ReachableIf blockStep (fun _ call => InRange call) (new 4) c ∧ (c.head = 2 ∧ c.tail = 1) :=
    exists_reachable_of_run
      [.write ⟨3, 3, [1, 2, 3]⟩, .read ⟨2, 2, [0, 0]⟩, .write ⟨2, -1, [8, 9]⟩,
        .write ⟨2, 2, [4, 5]⟩, .haveALook ⟨8, 8, [0, 0, 0, 0, 0, 0, 0, 0]⟩]
      (by decide +kernel)
  exact ⟨c, hP, index_safe 4 (by decide) (by decide) hc⟩

end BufferCacheBase

end CppRpc
