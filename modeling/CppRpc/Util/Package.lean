import CppRpc.Lib.Framing
import CppRpc.Util.Ring

/-!
# Packages as frames of a byte stream

A package on the wire is a frame: eight header bytes and the payload.
`frameCodec` is the frame format on its own, over byte lists, and it says
nothing about a ring.  This module connects it to `write_package` and
`read_package`.

* `writePackage_eq`: a package that leaves a byte free goes behind the
  contents as one encoded frame.
* `readPackage_frame`: when the contents start with a complete frame,
  `read_package` hands out its payload and drops the frame.
* `readPackage_none`: when they do not, it changes nothing.  The one exception
  is `Underflows`: a header with the right magic and a length in `-8 .. -1`.
  The sum with `sizeof(Header)` wraps for these lengths, so the size check
  lets them through.
-/

namespace CppRpc

open CData

/-! ## The frame format -/

theorem decodeInt_append {bs : List UInt8} (h : 4 ≤ bs.length) (ys : List UInt8) :
    decodeInt (bs ++ ys) = decodeInt bs := by
  rw [← decodeInt_take (bs ++ ys), List.take_append_of_le_length h, decodeInt_take]

namespace Header

@[simp] theorem bytes_length (h : Header) : h.bytes.length = 8 := rfl

/-- Only the first eight bytes count. -/
theorem ofBytes_append {bs : List UInt8} (h : 8 ≤ bs.length) (ys : List UInt8) :
    ofBytes (bs ++ ys) = ofBytes bs := by
  have hdrop : (bs ++ ys).drop 4 = bs.drop 4 ++ ys :=
    List.drop_append_of_le_length (by omega)
  rw [ofBytes, ofBytes, hdrop, decodeInt_append (by omega),
    decodeInt_append (by rw [List.length_drop]; omega)]

theorem ofBytes_take {bs : List UInt8} (h : 8 ≤ bs.length) : ofBytes (bs.take 8) = ofBytes bs := by
  have happ := @ofBytes_append (bs.take 8) (by rw [List.length_take]; omega) (bs.drop 8)
  rw [List.take_append_drop] at happ
  exact happ.symm

/-- A header reads back as itself, when its fields fit an `int`. -/
theorem ofBytes_bytes_append (h : Header) (rest : List UInt8) :
    ofBytes (h.bytes ++ rest) = ⟨toInt32 h.magic, toInt32 h.length⟩ := by
  rw [ofBytes, bytes, List.append_assoc, decodeInt_encodeInt_append,
    List.drop_left' (encodeInt_length _), decodeInt_encodeInt_append]

end Header

/-- One frame off the front of a byte list. -/
def decodeFrame (bs : List UInt8) : Option (List UInt8 × List UInt8) :=
  let h := Header.ofBytes bs
  if 8 ≤ bs.length ∧ toUInt32 h.magic = MAGIC ∧ 0 ≤ h.length ∧ 8 + h.length ≤ bs.length then
    some ((bs.drop 8).take h.length.toNat, bs.drop (8 + h.length.toNat))
  else
    none

/-- The frame of a payload. -/
def encodeFrame (p : List UInt8) : List UInt8 := Header.bytes ⟨toInt32 MAGIC, p.length⟩ ++ p

@[simp] theorem encodeFrame_length (p : List UInt8) : (encodeFrame p).length = 8 + p.length := by
  rw [encodeFrame, List.length_append, Header.bytes_length]

theorem decodeFrame_eq_some {bs p r : List UInt8} (h : decodeFrame bs = some (p, r)) :
    (8 ≤ bs.length ∧ toUInt32 (Header.ofBytes bs).magic = MAGIC ∧
      0 ≤ (Header.ofBytes bs).length ∧ 8 + (Header.ofBytes bs).length ≤ bs.length) ∧
    p = (bs.drop 8).take (Header.ofBytes bs).length.toNat ∧
    r = bs.drop (8 + (Header.ofBytes bs).length.toNat) := by
  unfold decodeFrame at h
  dsimp only at h
  split at h
  · rename_i hc
    obtain ⟨hp, hr⟩ := Prod.mk.inj (Option.some.inj h)
    exact ⟨hc, hp.symm, hr.symm⟩
  · exact absurd h (by simp)

theorem decodeFrame_extend {bs p r : List UInt8} (ys : List UInt8)
    (h : decodeFrame bs = some (p, r)) : decodeFrame (bs ++ ys) = some (p, r ++ ys) := by
  obtain ⟨⟨h8, hm, h0, hl⟩, rfl, rfl⟩ := decodeFrame_eq_some h
  unfold decodeFrame
  dsimp only
  rw [Header.ofBytes_append h8, if_pos ⟨by rw [List.length_append]; omega, hm, h0, by
    rw [List.length_append]; omega⟩, List.drop_append_of_le_length h8,
    List.take_append_of_le_length (by rw [List.length_drop]; omega),
    List.drop_append_of_le_length (by omega)]

theorem decodeFrame_encodeFrame {p : List UInt8} (r : List UInt8) (hp : p.length < 2147483648) :
    decodeFrame (encodeFrame p ++ r) = some (p, r) := by
  have hmagic : toUInt32 (toInt32 (toInt32 MAGIC)) = MAGIC := by decide
  have hlen : toInt32 p.length = p.length := toInt32_eq_self (by omega) (by omega)
  unfold decodeFrame
  dsimp only
  rw [encodeFrame, List.append_assoc, Header.ofBytes_bytes_append]
  dsimp only
  rw [hlen, if_pos ⟨by simp, hmagic, by omega, by
    simp only [List.length_append, Header.bytes_length]; omega⟩, Int.toNat_natCast,
    List.drop_left' (Header.bytes_length _), List.take_left' rfl, ← List.append_assoc,
    List.drop_left' (by rw [List.length_append, Header.bytes_length])]

/-- The frame format of `write_package` and `read_package`. -/
def frameCodec : FrameCodec UInt8 (List UInt8) where
  parse := decodeFrame
  shorter := by
    intro bs p r h
    obtain ⟨⟨h8, -⟩, -, rfl⟩ := decodeFrame_eq_some h
    rw [List.length_drop]
    omega
  extend := fun ys h => decodeFrame_extend ys h
  Valid := fun p => p.length < 2147483648
  encode := encodeFrame
  parse_encode := fun r hp => decodeFrame_encodeFrame r hp

/-- A header with the right magic whose length, added to `sizeof(Header)` as a
`size_t`, wraps to less than the header itself. -/
def Underflows (bs : List UInt8) : Prop :=
  8 ≤ bs.length ∧ toUInt32 (Header.ofBytes bs).magic = MAGIC ∧
    -8 ≤ (Header.ofBytes bs).length ∧ (Header.ofBytes bs).length < 0

instance : DecidablePred Underflows := fun _ => inferInstanceAs (Decidable (_ ∧ _))

/-! ## write_package -/

namespace BufferCacheBase

theorem WF.writePackage_eq {c : BufferCache} (w : c.WF) {p : List UInt8} (hp : p ≠ [])
    (hfit : c.size + 8 + p.length < c.capacity) :
    ∃ c', c.writePackage p p.length = some (true, c') ∧ c'.WF ∧
      c'.contents = c.contents ++ encodeFrame p ∧ c'.capacity = c.capacity := by
  have hpos : 0 < p.length := List.length_pos_iff.mpr hp
  have hsize := w.size_eq
  have hcap : c.capacity < 2147483648 := w.capacity_lt
  have hlen : toInt32 p.length = p.length := toInt32_eq_self (by omega) (by omega)
  have hhead : (Header.bytes ⟨toInt32 MAGIC, p.length⟩).length = 8 := rfl
  obtain ⟨c₁, h₁, w₁, hc₁, hcap₁, -⟩ :=
    w.write_eq sizeofHeader (show 0 < 8 by decide) (Nat.le_of_eq hhead.symm)
      (Or.inl (by omega))
  rw [List.take_of_length_le (Nat.le_of_eq hhead)] at hc₁
  have hlen₁ : c₁.contents.length = c.contents.length + 8 := by
    rw [hc₁, List.length_append, hhead]
  obtain ⟨c₂, h₂, w₂, hc₂, hcap₂, -⟩ :=
    w₁.write_eq p.length hpos (Nat.le_refl p.length) (Or.inl (by omega))
  rw [List.take_length] at hc₂
  refine ⟨c₂, ?_, w₂, ?_, hcap₂.trans hcap₁⟩
  · unfold writePackage
    dsimp only
    rw [hlen, show (⟨sizeofHeader, sizeofHeader, Header.bytes ⟨toInt32 MAGIC, p.length⟩⟩ : Buffer)
      = ⟨sizeofHeader, (8 : Nat), Header.bytes ⟨toInt32 MAGIC, p.length⟩⟩ from rfl, h₁]
    rw [Option.bind_some, if_neg (by dsimp only; omega), h₂, Option.map_some,
      if_neg (by dsimp only; omega)]
  · rw [hc₂, hc₁, encodeFrame, List.append_assoc]

end BufferCacheBase

/-! ## read_package -/

/-- The block behind `data` has the size that `capacity` says. -/
structure Buffer.Allocated (b : Buffer) : Prop where
  capacity_eq : b.capacity = b.data.length
  capacity_lt : b.capacity < 2147483648

theorem bufferCalloc_allocated (len : Int) : (bufferCalloc len).Allocated := by
  have hb := toInt32_bounds len
  rw [bufferCalloc_eq]
  split_ifs
  · exact ⟨by simp; omega, by dsimp only; omega⟩
  · exact ⟨rfl, by decide⟩

/-- `buffer_realloc` leaves room for a length that an `int` can hold. -/
theorem Buffer.Allocated.realloc {b : Buffer} (h : b.Allocated) {n : Nat}
    (hn : n < 2147483648) :
    (bufferRealloc b n).Allocated ∧ n ≤ (bufferRealloc b n).data.length := by
  have hcap := h.capacity_eq
  have hlt := h.capacity_lt
  unfold bufferRealloc
  rw [toUInt32_eq_self (by omega) (by omega), toUInt32_eq_self (by omega) (by omega)]
  split_ifs with hge
  · exact ⟨h, by omega⟩
  · refine ⟨bufferCalloc_allocated n, ?_⟩
    rw [bufferCalloc_eq, toInt32_eq_self (by omega) (by omega), if_pos (by omega)]
    simp

namespace BufferCacheBase

theorem WF.toSizeT_size {c : BufferCache} (w : c.WF) : toSizeT c.size = c.contents.length := by
  have := w.contents_length_le
  have := w.capacity_lt
  unfold capacity at *
  rw [w.size_eq, toSizeT_eq_self (by omega) (by omega)]

/-- The header that `read_package` looks at is the one at the front of the
contents. -/
theorem WF.lookHeader {c : BufferCache} (w : c.WF) (head : Header)
    (h8 : 8 ≤ c.contents.length) :
    ∃ r, c.haveALook ⟨sizeofHeader, sizeofHeader, head.bytes⟩ = some r ∧
      r.2 = ⟨sizeofHeader, sizeofHeader, c.contents.take 8⟩ := by
  have hlook := w.haveALook_eq sizeofHeader (Nat.le_of_eq head.bytes_length.symm)
  have hlen : (c.contents.take 8).length = 8 := by
    rw [List.length_take]
    omega
  rw [hlen, List.drop_of_length_le (Nat.le_of_eq head.bytes_length), List.append_nil] at hlook
  exact ⟨_, hlook, rfl⟩

/-- A complete frame at the front: its payload is handed out and the frame is
gone. -/
theorem WF.readPackage_frame {c : BufferCache} (w : c.WF) (head : Header) {buffer : Buffer}
    (hb : buffer.Allocated) {p r : List UInt8} (hdec : decodeFrame c.contents = some (p, r)) :
    ∃ buffer' c',
      c.readPackage head buffer = some (true, Header.ofBytes c.contents, buffer', c') ∧ c'.WF ∧
      c'.contents = r ∧ c'.capacity = c.capacity ∧ buffer'.Allocated ∧
      buffer'.length = p.length ∧ p.length ≤ buffer'.data.length ∧
      buffer'.data.take p.length = p := by
  obtain ⟨⟨h8, hmagic, h0, hlen⟩, hp, hr⟩ := decodeFrame_eq_some hdec
  have hcap := w.contents_length_le
  have hlt := w.capacity_lt
  unfold capacity at hcap
  obtain ⟨look, hlook, hlook2⟩ := w.lookHeader head h8
  generalize hh : Header.ofBytes c.contents = h at hmagic h0 hlen hp hr
  have hpl : (p.length : Int) = h.length := by
    rw [hp, List.length_take, List.length_drop]
    omega
  obtain ⟨halloc, hroom⟩ := hb.realloc (show p.length < 2147483648 by omega)
  obtain ⟨c₁, hread₁, w₁, hc₁, hcap₁⟩ :=
    w.read_eq sizeofHeader (show 8 ≤ (c.contents.take 8).length by rw [List.length_take]; omega)
  obtain ⟨c₂, hread₂, w₂, hc₂, hcap₂⟩ :=
    w₁.read_eq (bufferRealloc buffer p.length).capacity hroom
  have htake8 : (c.contents.take 8).length = 8 := by
    rw [List.length_take]
    omega
  rw [htake8, List.drop_of_length_le (Nat.le_of_eq htake8), List.append_nil] at hread₁
  have hpay : c₁.contents.take p.length = p := by
    rw [hc₁, show p.length = h.length.toNat by omega, ← hp]
  rw [hpay] at hread₂
  refine ⟨⟨(bufferRealloc buffer p.length).capacity, p.length,
      p ++ (bufferRealloc buffer p.length).data.drop p.length⟩, c₂, ?_, w₂, ?_,
    hcap₂.trans hcap₁, ?_, rfl, ?_, List.take_left' rfl⟩
  · unfold readPackage
    rw [w.toSizeT_size, if_neg (by unfold sizeofHeader; omega), hlook, Option.bind_some, hlook2]
    dsimp only
    rw [Header.ofBytes_take h8, hh, if_neg (not_not.mpr hmagic), toSizeT_eq_self h0 (by omega),
      toSizeT_eq_self (by unfold sizeofHeader; omega) (by unfold sizeofHeader; omega),
      if_neg (by unfold sizeofHeader; omega), ← hpl]
    rw [show (⟨sizeofHeader, sizeofHeader, c.contents.take 8⟩ : Buffer) =
      ⟨sizeofHeader, (8 : Nat), c.contents.take 8⟩ from rfl, hread₁, Option.bind_some]
    dsimp only
    rw [Header.ofBytes_take h8, hh, ← hpl, hread₂, Option.map_some]
  · rw [hc₂, hc₁, List.drop_drop, hr]
    congr 1
    omega
  · have hcapacity := halloc.capacity_eq
    exact ⟨by simp only [List.length_append, List.length_drop]; omega, halloc.capacity_lt⟩
  · rw [List.length_append]
    exact Nat.le_add_right _ _

/-- No complete frame at the front: `read_package` answers `false` and leaves
the cache and the buffer alone. -/
theorem WF.readPackage_none {c : BufferCache} (w : c.WF) (head : Header) (buffer : Buffer)
    (hdec : decodeFrame c.contents = none) (hu : ¬ Underflows c.contents) :
    ∃ head', c.readPackage head buffer = some (false, head', buffer, c) := by
  have hcap := w.contents_length_le
  have hlt := w.capacity_lt
  unfold capacity at hcap
  unfold readPackage
  rw [w.toSizeT_size]
  by_cases h8 : 8 ≤ c.contents.length
  · obtain ⟨look, hlook, hlook2⟩ := w.lookHeader head h8
    rw [if_neg (by unfold sizeofHeader; omega), hlook, Option.bind_some, hlook2]
    dsimp only
    rw [Header.ofBytes_take h8]
    refine ⟨Header.ofBytes c.contents, ?_⟩
    by_cases hmagic : toUInt32 (Header.ofBytes c.contents).magic = MAGIC
    · have hbig : (c.contents.length : Int) <
          toSizeT (sizeofHeader + toSizeT (Header.ofBytes c.contents).length) := by
        have hb : -2147483648 ≤ (Header.ofBytes c.contents).length ∧
            (Header.ofBytes c.contents).length < 2147483648 := decodeInt_bounds _
        have hshort : 0 ≤ (Header.ofBytes c.contents).length →
            (c.contents.length : Int) < 8 + (Header.ofBytes c.contents).length := by
          intro h0
          by_contra hge
          unfold decodeFrame at hdec
          dsimp only at hdec
          rw [if_pos ⟨h8, hmagic, h0, by omega⟩] at hdec
          exact absurd hdec (by simp)
        have hlow : (Header.ofBytes c.contents).length < 0 →
            (Header.ofBytes c.contents).length < -8 := by
          intro h0
          by_contra hge
          exact hu ⟨h8, hmagic, by omega, h0⟩
        unfold toSizeT sizeofHeader
        omega
      rw [if_neg (not_not.mpr hmagic), if_pos hbig]
    · rw [if_pos hmagic]
  · rw [if_pos (by unfold sizeofHeader; omega)]
    exact ⟨head, rfl⟩

end BufferCacheBase

end CppRpc
