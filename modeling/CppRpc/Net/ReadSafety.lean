import CppRpc.Net.Socket
import CppRpc.Util.PackageWrite

/-!
# What `read_package` does on bytes from an untrusted peer

The contents of a read cache are any bytes at all: the peer chooses the magic
and the length.  `SafeRead` is what one call must do with them, and `LoopEnds`
says that `while(read_package(head, buffer))` ends.

* `ReadCase` lists the outcomes of one call, and `WF.readPackage_cases` says
  which contents lead to which.
* `WF.safeRead_iff_not_underflows` and `WF.loopEnds_iff` are the exact
  conditions, put together in `safe_and_ends_iff`.  The lengths in `-8 .. -1`
  are the ones that go wrong (`Underflows`).  Such a length passes the size
  check and asks `buffer_realloc` for nearly four gigabytes, as an `int` a
  negative number, so that `buffer.data` is a null pointer.  The header is taken
  off.  Then `memcpy` gets the negative length, unless the header was all there
  was in the cache: there `read` leaves early and the caller gets a negative
  length.
-/

namespace CppRpc

open CData Runs

namespace BufferCacheBase

variable {c : BufferCache}

/-! ## The outcomes of read_package -/

/-- The package with this header was taken off the cache and is in `buffer`. -/
def TookPackage (c : BufferCache) (head : Header) (buffer : Buffer) (c' : BufferCache) : Prop :=
  (0 ≤ head.length ∧ head.length ≤ c.size - sizeofHeader) ∧
    c'.contents = c.contents.drop (8 + head.length.toNat) ∧
    (buffer.length = head.length ∧ head.length ≤ buffer.capacity ∧
      buffer.capacity = buffer.data.length) ∧
    buffer.data.take head.length.toNat = (c.contents.drop 8).take head.length.toNat

instance (c : BufferCache) (head : Header) (buffer : Buffer) (c' : BufferCache) :
    Decidable (c.TookPackage head buffer c') :=
  inferInstanceAs (Decidable (_ ∧ _))

/-- The property of one call. -/
def SafeRead (c : BufferCache) (head : Header) (buffer : Buffer) : Prop :=
  ∃ r ∈ c.readPackage head buffer,
    if r.1 then c.TookPackage r.2.1 r.2.2.1 r.2.2.2 else r.2.2.2 = c

instance (c : BufferCache) (head : Header) (buffer : Buffer) :
    Decidable (c.SafeRead head buffer) :=
  inferInstanceAs (Decidable (∃ r ∈ _, _))

/-- The outcomes of a `read_package`. -/
inductive ReadCase (c : BufferCache) (head : Header) (buffer : Buffer) :
    Option (Bool × Header × Buffer × BufferCache) → Prop
  | taken (p r : List UInt8) (buffer' : Buffer) (c' : BufferCache) :
      decodeFrame c.contents = some (p, r) → c'.WF → c'.contents = r → buffer'.Allocated →
      c.TookPackage (Header.ofBytes c.contents) buffer' c' →
      ReadCase c head buffer (some (true, Header.ofBytes c.contents, buffer', c'))
  | incomplete (head' : Header) : decodeFrame c.contents = none → ¬ Underflows c.contents →
      ReadCase c head buffer (some (false, head', buffer, c))
  /-- The header was all that the cache held. -/
  | emptied (buffer' : Buffer) (c' : BufferCache) : Underflows c.contents →
      c.contents.length = 8 → c'.WF → c'.contents = [] → buffer'.Allocated →
      ReadCase c head buffer (some (true, Header.ofBytes c.contents, buffer', c'))
  /-- The negative length reaches `memcpy`. -/
  | undefined : Underflows c.contents → 8 < c.contents.length → ReadCase c head buffer none

/-- No frame starts with a negative length. -/
theorem decodeFrame_of_underflows {bs : List UInt8} (h : Underflows bs) :
    decodeFrame bs = none := by
  unfold decodeFrame
  dsimp only
  rw [if_neg]
  rintro ⟨-, -, h0, -⟩
  exact absurd h.2.2.2 (by omega)

/-- A negative length leaves the caller without a block. -/
theorem bufferRealloc_neg {b : Buffer} (hb : b.Allocated) {n : Int} (hn : -8 ≤ n) (h0 : n < 0) :
    bufferRealloc b n = ⟨0, 0, []⟩ := by
  have hcap := hb.capacity_eq
  have hlt := hb.capacity_lt
  unfold bufferRealloc
  rw [toUInt32_eq_self (by omega) (by omega), if_neg (by unfold toUInt32; omega),
    bufferCalloc_eq, toInt32_eq_self (by omega) (by omega), if_neg (by omega)]

theorem WF.readPackage_underflows (w : c.WF) (head : Header) {buffer : Buffer}
    (hb : buffer.Allocated) (hu : Underflows c.contents) :
    ReadCase c head buffer (c.readPackage head buffer) := by
  obtain ⟨h8, hmagic, hlow, hneg⟩ := id hu
  have hcap := w.contents_length_le
  have hlt := w.capacity_lt
  unfold capacity at hcap
  obtain ⟨look, hlook, hlook2⟩ := w.lookHeader head h8
  have htake8 : (c.contents.take 8).length = 8 := by
    rw [List.length_take]
    omega
  obtain ⟨c₁, hread₁, w₁, hc₁, -⟩ :=
    w.read_eq sizeofHeader (show 8 ≤ (c.contents.take 8).length by omega)
  rw [htake8, List.drop_of_length_le (Nat.le_of_eq htake8), List.append_nil] at hread₁
  have hlen₁ : c₁.contents.length = c.contents.length - 8 := by rw [hc₁, List.length_drop]
  -- The sum with `sizeof(Header)` wraps to less than the header.
  have hwrap : toSizeT (sizeofHeader + toSizeT (Header.ofBytes c.contents).length) < 8 := by
    unfold toSizeT sizeofHeader
    omega
  have hfront : c.readPackage head buffer =
      (c₁.read ⟨0, (Header.ofBytes c.contents).length, []⟩).map fun r =>
        (true, Header.ofBytes c.contents, r.2.1, r.2.2) := by
    unfold readPackage
    rw [w.toSizeT_size, if_neg (by unfold sizeofHeader; omega), hlook, Option.bind_some, hlook2]
    dsimp only
    rw [Header.ofBytes_take h8, if_neg (not_not.mpr hmagic), if_neg (by omega),
      bufferRealloc_neg hb hlow hneg,
      show (⟨sizeofHeader, sizeofHeader, c.contents.take 8⟩ : Buffer) =
        ⟨sizeofHeader, (8 : Nat), c.contents.take 8⟩ from rfl, hread₁, Option.bind_some]
    dsimp only
    rw [Header.ofBytes_take h8]
  rw [hfront]
  by_cases hlen : c.contents.length = 8
  · have hnil : c₁.contents = [] := List.eq_nil_of_length_eq_zero (by omega)
    rw [w₁.read_neg_of_nil hneg hnil, Option.map_some]
    exact .emptied _ c₁ hu hlen w₁ hnil ⟨rfl, show (0 : Int) < 2147483648 by decide⟩
  · have hne : c₁.contents ≠ [] := fun hnil => by
      rw [hnil, List.length_nil] at hlen₁
      omega
    rw [w₁.read_neg hneg hne, Option.map_none]
    exact .undefined hu (by omega)

/-- Everything that `read_package` can do, whatever the contents are. -/
theorem WF.readPackage_cases (w : c.WF) (head : Header) {buffer : Buffer}
    (hb : buffer.Allocated) : ReadCase c head buffer (c.readPackage head buffer) := by
  by_cases hu : Underflows c.contents
  · exact w.readPackage_underflows head hb hu
  · cases hdec : decodeFrame c.contents with
    | none =>
      obtain ⟨head', hread⟩ := w.readPackage_none head buffer hdec hu
      rw [hread]
      exact .incomplete head' hdec hu
    | some q =>
      obtain ⟨p, r⟩ := q
      obtain ⟨buffer', c', hread, w', hc', -, hb', hlen, hle, hdata⟩ :=
        w.readPackage_frame head hb hdec
      obtain ⟨⟨h8, -, h0, hfit⟩, hp, hr⟩ := decodeFrame_eq_some hdec
      have hplen : p.length = (Header.ofBytes c.contents).length.toNat := by
        rw [hp, List.length_take, List.length_drop]
        omega
      have hcapacity := hb'.capacity_eq
      rw [hread]
      refine .taken p r buffer' c' hdec w' hc' hb' ⟨⟨h0, ?_⟩, hc'.trans hr, ⟨?_, ?_, ?_⟩, ?_⟩
      · rw [w.size_eq]
        unfold sizeofHeader
        omega
      · omega
      · omega
      · exact hcapacity
      · rw [← hplen, hdata, hplen]
        exact hp

theorem WF.safeRead_iff_not_underflows (w : c.WF) (head : Header) {buffer : Buffer}
    (hb : buffer.Allocated) : c.SafeRead head buffer ↔ ¬ Underflows c.contents := by
  have hcase := w.readPackage_cases head hb
  unfold SafeRead
  generalize c.readPackage head buffer = o at hcase
  cases hcase with
  | taken p r buffer' c' hdec _ _ _ htook =>
    simp only [Option.mem_some_iff, exists_eq_left', if_true]
    refine iff_of_true htook fun hu => ?_
    rw [decodeFrame_of_underflows hu] at hdec
    cases hdec
  | incomplete head' _ hu => simp [hu]
  | emptied buffer' c' hu hlen _ _ _ =>
    simp only [Option.mem_some_iff, exists_eq_left', if_true]
    refine iff_of_false (fun htook => ?_) (not_not.mpr hu)
    exact absurd htook.1.1 (by have := hu.2.2.2; omega)
  | undefined hu _ => simp [hu]

/-! ## The loop -/

/-- The property of the loop: there is a result that any fuel from the size of
the cache on reaches. -/
def LoopEnds (c : BufferCache) (head : Header) (buffer : Buffer) : Prop :=
  ∃ r, ∀ fuel : Nat, c.size < fuel → readPackages fuel c head buffer = some r

/-- Every turn takes bytes off the cache, so fuel beyond its size changes
nothing. -/
theorem readPackages_fuel (w : c.WF) (head : Header) {buffer : Buffer} (hb : buffer.Allocated)
    {fuel fuel' : Nat} (hf : c.contents.length < fuel) (hf' : c.contents.length < fuel') :
    readPackages fuel c head buffer = readPackages fuel' c head buffer := by
  induction fuel generalizing c head buffer fuel' with
  | zero => exact absurd hf (Nat.not_lt_zero _)
  | succ fuel ih =>
    cases fuel' with
    | zero => exact absurd hf' (Nat.not_lt_zero _)
    | succ fuel' =>
      have hcase := w.readPackage_cases head hb
      rw [readPackages, readPackages]
      generalize c.readPackage head buffer = o at hcase
      cases hcase with
      | taken p r buffer' c' hdec w' hc' hb' =>
        have hshort := frameCodec.shorter hdec
        rw [← hc'] at hshort
        dsimp only [Option.bind_some]
        rw [ih w' _ hb' (by omega) (show c'.contents.length < fuel' by omega)]
      | incomplete => rfl
      | emptied buffer' c' _ hlen w' hc' hb' =>
        have hzero : c'.contents.length = 0 := by rw [hc', List.length_nil]
        dsimp only [Option.bind_some]
        rw [ih w' _ hb' (by omega) (show c'.contents.length < fuel' by omega)]
      | undefined => rfl

/-- The loop gets through unless it comes to a header that underflows with
bytes behind it. -/
theorem readPackages_isSome_iff (w : c.WF) (head : Header) {buffer : Buffer}
    (hb : buffer.Allocated) {fuel : Nat} (hf : c.contents.length < fuel) :
    (readPackages fuel c head buffer).isSome ↔
      ¬ (Underflows (frameCodec.parseAll c.contents).2 ∧
        8 < (frameCodec.parseAll c.contents).2.length) := by
  induction fuel generalizing c head buffer with
  | zero => exact absurd hf (Nat.not_lt_zero _)
  | succ fuel ih =>
    have hcase := w.readPackage_cases head hb
    rw [readPackages]
    generalize c.readPackage head buffer = o at hcase
    cases hcase with
    | taken p r buffer' c' hdec w' hc' hb' =>
      have hshort := frameCodec.shorter hdec
      rw [← hc'] at hshort
      rw [frameCodec.parseAll_of_some hdec, ← hc', Option.bind_some, if_pos rfl,
        Option.isSome_map]
      exact ih w' _ hb' (by omega)
    | incomplete head' hdec hu =>
      rw [frameCodec.parseAll_of_none hdec]
      exact iff_of_true rfl fun h => hu h.1
    | emptied buffer' c' hu hlen w' hc' hb' =>
      have hzero : c'.contents.length = 0 := by rw [hc', List.length_nil]
      rw [frameCodec.parseAll_of_none (decodeFrame_of_underflows hu), Option.bind_some,
        if_pos rfl, Option.isSome_map, ih w' _ hb' (by omega), hc',
        frameCodec.parseAll_of_none frameCodec.parse_nil]
      refine iff_of_true (fun h => absurd h.2 (Nat.not_lt_zero _)) fun h => ?_
      exact absurd h.2 (by dsimp only; omega)
    | undefined hu hlen =>
      rw [frameCodec.parseAll_of_none (decodeFrame_of_underflows hu)]
      exact iff_of_false Bool.false_ne_true (not_not.mpr ⟨hu, hlen⟩)

theorem WF.loopEnds_iff (w : c.WF) (head : Header) {buffer : Buffer} (hb : buffer.Allocated) :
    c.LoopEnds head buffer ↔
      ¬ (Underflows (frameCodec.parseAll c.contents).2 ∧
        8 < (frameCodec.parseAll c.contents).2.length) := by
  have hsize := w.size_eq
  rw [← readPackages_isSome_iff w head hb (Nat.lt_succ_self _), Option.isSome_iff_exists]
  constructor
  · rintro ⟨r, hr⟩
    exact ⟨r, hr _ (by omega)⟩
  · rintro ⟨r, hr⟩
    refine ⟨r, fun fuel hfuel => ?_⟩
    rw [readPackages_fuel w head hb (show c.contents.length < fuel by omega)
      (Nat.lt_succ_self _), hr]

/-- For every cache that the program can get to and every bytes in it: one
`read_package` is safe exactly when the contents do not start with a header
that underflows, and the loop ends exactly when no such header with a byte
behind it comes after the complete frames. -/
theorem safe_and_ends_iff (size : Int) (h : Reachable use (new size) c) (head : Header)
    {buffer : Buffer} (hb : buffer.Allocated) :
    (c.SafeRead head buffer ↔ ¬ Underflows c.contents) ∧
    (c.LoopEnds head buffer ↔
      ¬ (Underflows (frameCodec.parseAll c.contents).2 ∧
        8 < (frameCodec.parseAll c.contents).2.length)) :=
  ⟨(wf_of_reachable h).safeRead_iff_not_underflows head hb,
    (wf_of_reachable h).loopEnds_iff head hb⟩

/-- A frame of two bytes and half a header. -/
theorem safe_and_ends_iff_frame_and_a_half :
    ∃ c : BufferCache, c.contents.length = 14 ∧ c.SafeRead ⟨0, 0⟩ (bufferCalloc BLOCK_SIZE) ∧
      c.LoopEnds ⟨0, 0⟩ (bufferCalloc BLOCK_SIZE) := by
  obtain ⟨c, hc, hP⟩ : ∃ c, Reachable use (new 32) c ∧ (c.contents.length = 14 ∧
      ¬ Underflows c.contents ∧ ¬ (Underflows (frameCodec.parseAll c.contents).2 ∧
        8 < (frameCodec.parseAll c.contents).2.length)) :=
    exists_reachable_of_run
      [.call (.write [0xd5, 0xc4, 0xb3, 0xa2, 2, 0, 0, 0, 7, 8, 0xd5, 0xc4, 0xb3, 0xa2])]
      (by decide +kernel)
  have hiff := safe_and_ends_iff 32 hc ⟨0, 0⟩ (bufferCalloc_allocated BLOCK_SIZE)
  exact ⟨c, hP.1, hiff.1.mpr hP.2.1, hiff.2.mpr hP.2.2⟩

/-- A header with the length `-1` and one byte from the peer. -/
theorem negative_length_overruns :
    ∃ c, Reachable use (new 32) c ∧ ¬ c.SafeRead ⟨0, 0⟩ (bufferCalloc BLOCK_SIZE) :=
  exists_reachable_of_run
    [.call (.write [0xd5, 0xc4, 0xb3, 0xa2, 0xff, 0xff, 0xff, 0xff, 7])] (by decide +kernel)

end BufferCacheBase

end CppRpc
