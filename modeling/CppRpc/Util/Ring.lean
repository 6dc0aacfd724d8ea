import CppRpc.Util.Buffer

/-!
# The ring as a byte sequence

`contents` is the byte sequence that later reads of a cache see, and `WF` is
the invariant of the two indices: both stay in `0 .. capacity`, and a tail
behind the head is not zero.  This module says what each operation of
`BufferCacheBase` does to `contents`, one lemma for each operation, so that no
later proof looks at an index again.

There are four groups.

* Positions.  `ringIndex` is the place of byte `k` behind the head,
  `ringStep` the index after a move by `k`, `ringSize` the number of bytes.
  `contents_ring_getElem?` reads `contents` at a position.
* `copyOut_ring`, `haveALook_eq` and `read_eq`: a look shows a prefix of the
  contents, and a read drops it.  `finishLook_compare` is the look step by step.
* `write_rejected`, `write_eq` and `write_exact_fill`: the three outcomes of a
  write.  The third is a block of exactly the free size behind a head that is
  not zero: the tail comes to lie on the head and the cache looks empty.
* `new_wf` and `contents_new`: a fresh cache.

The proofs work on `ring d l h t`, the cache with block `d` and natural
indices `h` and `t`, which `WF.exists_ring` gives for every well-formed cache.
-/

namespace CppRpc

open CData

theorem bufferCalloc_eq (len : Int) :
    bufferCalloc len = if 0 ≤ toInt32 len
      then ⟨toInt32 len, 0, List.replicate (toInt32 len).toNat 0⟩ else ⟨0, 0, []⟩ := by
  have hb := toInt32_bounds len
  unfold bufferCalloc malloc
  by_cases h0 : 0 ≤ toInt32 len
  · rw [toSizeT_eq_self h0 (by omega), if_pos (by omega), if_pos h0]
  · rw [if_neg (by unfold toSizeT; omega), if_neg h0]

namespace BufferCacheBase

/-- The bytes that later reads see, oldest first. -/
def contents (c : BufferCacheBase) : List UInt8 :=
  if c.head ≤ c.tail then (c.buffer.data.drop c.head.toNat).take (c.tail - c.head).toNat
  else c.buffer.data.drop c.head.toNat ++ c.buffer.data.take c.tail.toNat

/-- The invariant of the ring. -/
structure WF (c : BufferCacheBase) : Prop where
  capacity_eq : c.buffer.capacity = c.buffer.data.length
  capacity_lt : c.buffer.capacity < 2147483648
  head_nonneg : 0 ≤ c.head
  head_le : c.head ≤ c.buffer.capacity
  tail_nonneg : 0 ≤ c.tail
  tail_le : c.tail ≤ c.buffer.capacity
  tail_pos : c.tail < c.head → 0 < c.tail

/-! ## Positions -/

/-- The place in a ring of `n` bytes of the byte `k` places behind `h`. -/
def ringIndex (n h k : Nat) : Nat := if h + k < n then h + k else h + k - n

/-- The index `h` after a move by `k`.  It stays at `n` when it gets there. -/
def ringStep (n h k : Nat) : Nat := if h + k ≤ n then h + k else h + k - n

/-- The number of bytes between two indices. -/
def ringSize (n h t : Nat) : Nat := if h ≤ t then t - h else t + n - h

/-- The cache with block `d` and natural indices. -/
def ring (d : List UInt8) (l : Int) (h t : Nat) : BufferCacheBase := ⟨⟨d.length, l, d⟩, h, t⟩

theorem WF.exists_ring {c : BufferCacheBase} (w : c.WF) :
    ∃ d l h t, c = ring d l h t ∧ h ≤ d.length ∧ t ≤ d.length ∧ d.length < 2147483648 ∧
      (t < h → 0 < t) := by
  obtain ⟨⟨cap, l, d⟩, h, t⟩ := c
  obtain ⟨hcap, hlt, hh0, hh, ht0, ht, htp⟩ := w
  dsimp only at hcap hlt hh0 hh ht0 ht htp
  obtain ⟨h, rfl⟩ := Int.eq_ofNat_of_zero_le hh0
  obtain ⟨t, rfl⟩ := Int.eq_ofNat_of_zero_le ht0
  exact ⟨d, l, h, t, by rw [ring, hcap], by omega, by omega, by omega, by omega⟩

theorem wf_ring {d : List UInt8} {l : Int} {h t : Nat} (hh : h ≤ d.length) (ht : t ≤ d.length)
    (hd : d.length < 2147483648) (htp : t < h → 0 < t) : (ring d l h t).WF := by
  constructor <;> dsimp only [ring] <;> omega

theorem size_ring {d : List UInt8} {l : Int} {h t : Nat} (hh : h ≤ d.length)
    (hd : d.length < 2147483648) :
    (ring d l h t).size = ringSize d.length h t := by
  unfold size ringSize ring
  dsimp only
  split_ifs
  · omega
  · omega
  · omega
  · rw [toInt32_eq_self (by omega) (by omega)]
    omega

theorem contents_ring_getElem? {d : List UInt8} {l : Int} {h t : Nat} (hh : h ≤ d.length)
    (ht : t ≤ d.length) (k : Nat) :
    (ring d l h t).contents[k]? =
      if k < ringSize d.length h t then d[ringIndex d.length h k]? else none := by
  unfold contents ring ringSize ringIndex
  dsimp only
  by_cases hht : h ≤ t
  · rw [if_pos (by omega), if_pos hht, List.getElem?_take, List.getElem?_drop]
    simp only [Int.toNat_natCast, Int.toNat_sub]
    by_cases hk : k < t - h
    · rw [if_pos hk, if_pos hk, if_pos (by omega)]
    · rw [if_neg hk, if_neg hk]
  · rw [if_neg (by omega), if_neg hht, List.getElem?_append, List.getElem?_drop,
      List.getElem?_take, List.length_drop]
    simp only [Int.toNat_natCast]
    split_ifs <;> first | omega | (congr 1; omega) | rfl

theorem contents_ring_length {d : List UInt8} {l : Int} {h t : Nat} (hh : h ≤ d.length)
    (ht : t ≤ d.length) : (ring d l h t).contents.length = ringSize d.length h t := by
  unfold contents ring ringSize
  dsimp only
  split_ifs <;> simp only [List.length_append, List.length_take, List.length_drop] <;> omega

/-- `size` counts the contents. -/
theorem WF.size_eq {c : BufferCacheBase} (w : c.WF) : c.size = c.contents.length := by
  obtain ⟨d, l, h, t, rfl, hh, ht, hd, _⟩ := w.exists_ring
  rw [size_ring hh hd, contents_ring_length hh ht]

theorem WF.contents_length_le {c : BufferCacheBase} (w : c.WF) :
    (c.contents.length : Int) ≤ c.capacity := by
  obtain ⟨d, l, h, t, rfl, hh, ht, hd, htp⟩ := w.exists_ring
  rw [contents_ring_length hh ht]
  show _ ≤ (d.length : Int)
  unfold ringSize
  split_ifs <;> omega

/-- `is_empty` is emptiness of the contents. -/
theorem WF.isEmpty_iff {c : BufferCacheBase} (w : c.WF) : c.isEmpty = true ↔ c.contents = [] := by
  obtain ⟨d, l, h, t, rfl, hh, ht, hd, htp⟩ := w.exists_ring
  rw [← List.length_eq_zero_iff, contents_ring_length hh ht]
  unfold isEmpty ring ringSize
  simp only [beq_iff_eq, Int.natCast_inj]
  split_ifs <;> omega

/-! ## have_a_look and read -/

theorem size_eq_sizeReturn (c : BufferCacheBase) : c.size = c.sizeReturn (c.head ≤ c.tail) := by
  unfold size sizeReturn
  simp only [decide_eq_true_eq]

theorem finishLook_copy (c : BufferCacheBase) (fuel : Nat) (buf : Buffer) :
    c.finishLook (fuel + 1) .copy buf = (c.copyOut buf).map fun data => { buf with data } := by
  rw [finishLook, lookStep]
  cases c.copyOut buf <;> rfl

theorem finishLook_test (c : BufferCacheBase) (fuel : Nat) (buf : Buffer) :
    c.finishLook (fuel + 2) .test buf =
      if c.isEmpty then some buf else (c.copyOut buf).map fun data => { buf with data } := by
  rw [finishLook, lookStep, Option.bind_some]
  split_ifs
  · rfl
  · exact c.finishLook_copy fuel buf

theorem finishLook_assign (c : BufferCacheBase) (fuel : Nat) (buf : Buffer) :
    c.finishLook (fuel + 2) .assign buf =
      c.finishLook fuel .test { buf with length := c.size } := by
  rw [size_eq_sizeReturn]
  rfl

/-- Undisturbed, the steps are the function. -/
theorem finishLook_compare (c : BufferCacheBase) (buf : Buffer) :
    c.finishLook 6 .compare buf = (c.haveALook buf).map (·.2) := by
  have hclamp : c.finishLook 6 .compare buf = c.finishLook 2 .test (c.clampLength buf) := by
    have hstart : c.finishLook 6 .compare buf =
        c.finishLook 4 (if buf.length > c.size then .assign else .test) buf := by
      rw [size_eq_sizeReturn]
      rfl
    rw [hstart, clampLength]
    split_ifs
    · exact c.finishLook_assign 2 buf
    · rw [finishLook_test, finishLook_test]
  rw [hclamp, finishLook_test, haveALook]
  split_ifs
  · rfl
  · rw [Option.map_map]
    rfl

theorem splice_getElem? (dst src : List UInt8) (i j n : Nat) (hdst : i + n ≤ dst.length)
    (hsrc : j + n ≤ src.length) (k : Nat) :
    (dst.take i ++ (src.drop j).take n ++ dst.drop (i + n))[k]? =
      if i ≤ k ∧ k < i + n then src[j + (k - i)]? else dst[k]? := by
  have hi : (dst.take i).length = i := by rw [List.length_take]; omega
  have hn : ((src.drop j).take n).length = n := by
    rw [List.length_take, List.length_drop]
    omega
  rw [List.getElem?_append, List.getElem?_append, List.length_append, hi, hn,
    List.getElem?_take, List.getElem?_take, List.getElem?_drop, List.getElem?_drop]
  split_ifs <;> first | omega | (congr 1; omega) | rfl

theorem splice_length (dst src : List UInt8) (i j n : Nat) (hdst : i + n ≤ dst.length)
    (hsrc : j + n ≤ src.length) :
    (dst.take i ++ (src.drop j).take n ++ dst.drop (i + n)).length = dst.length := by
  simp only [List.length_append, List.length_take, List.length_drop]
  omega

/-- The copies out of the ring stay inside both blocks and put the front of the
contents at the front of the caller's block. -/
theorem copyOut_ring {d dst : List UInt8} {l cap : Int} {h t n : Nat} (hh : h ≤ d.length)
    (ht : t ≤ d.length) (hn : n ≤ ringSize d.length h t) (hdst : n ≤ dst.length) :
    (ring d l h t).copyOut ⟨cap, n, dst⟩ =
      some ((ring d l h t).contents.take n ++ dst.drop n) := by
  have hsize : ringSize d.length h t ≤ d.length := by
    unfold ringSize
    split_ifs <;> omega
  have hlen := contents_ring_length (l := l) hh ht
  -- What the copies leave at position `k`, in both layouts.
  have key : ∀ dst' : List UInt8,
      (∀ k, dst'[k]? = if k < n then d[ringIndex d.length h k]? else dst[k]?) →
      dst' = (ring d l h t).contents.take n ++ dst.drop n := by
    intro dst' hdst'
    apply List.ext_getElem?
    intro k
    have htake : ((ring d l h t).contents.take n).length = n := by
      rw [List.length_take]
      omega
    rw [hdst', List.getElem?_append, htake, List.getElem?_take, contents_ring_getElem? hh ht,
      List.getElem?_drop]
    split_ifs <;> first | omega | (congr 1; omega) | rfl
  unfold copyOut
  by_cases hstraight : h + n ≤ d.length
  · rw [if_pos (by dsimp only [ring]; omega)]
    dsimp only [ring]
    have hcopy := memcpy_eq_some dst d 0 h n (by omega) (by omega)
    rw [show (0 : Int) = ((0 : Nat) : Int) from rfl, hcopy]
    congr 1
    apply key
    intro k
    rw [splice_getElem? _ _ _ _ _ (by omega) (by omega)]
    unfold ringIndex
    split_ifs <;> first | omega | rfl
  · rw [if_neg (by dsimp only [ring]; omega)]
    dsimp only [ring]
    have hfirst := memcpy_eq_some dst d 0 h (d.length - h) (by omega) (by omega)
    rw [show (d.length : Int) - (h : Int) = ((d.length - h : Nat) : Int) by omega,
      show (0 : Int) = ((0 : Nat) : Int) from rfl, hfirst, Option.bind_some,
      show (n : Int) - ((d.length - h : Nat) : Int) = ((n - (d.length - h) : Nat) : Int) by omega]
    have hl1 := splice_length dst d 0 h (d.length - h) (by omega) (by omega)
    rw [memcpy_eq_some _ _ _ _ _ (by omega) (by unfold ringSize at *; split_ifs at * <;> omega)]
    congr 1
    apply key
    intro k
    rw [splice_getElem? _ _ _ _ _ (by omega) (by omega),
      splice_getElem? _ _ _ _ _ (by omega) (by omega)]
    unfold ringIndex
    split_ifs <;> first | omega | (congr 1; omega) | rfl

theorem WF.copyOut_eq {c : BufferCacheBase} (w : c.WF) (cap : Int) {n : Nat}
    {dst : List UInt8} (hn : n ≤ c.contents.length) (hdst : n ≤ dst.length) :
    c.copyOut ⟨cap, n, dst⟩ = some (c.contents.take n ++ dst.drop n) := by
  obtain ⟨d, l, h, t, rfl, hh, ht, _, _⟩ := w.exists_ring
  exact copyOut_ring hh ht (by rw [← contents_ring_length hh ht]; exact hn) hdst

/-- The copy of as many bytes as both sides have. -/
theorem WF.copyOut_of_le {c : BufferCacheBase} (w : c.WF) {buf : Buffer} (hlow : 0 ≤ buf.length)
    (hlen : buf.length ≤ c.contents.length) (hdata : buf.length ≤ buf.data.length) :
    c.copyOut buf =
      some (c.contents.take buf.length.toNat ++ buf.data.drop buf.length.toNat) := by
  obtain ⟨cap, n, data⟩ := buf
  obtain ⟨n, rfl⟩ := Int.eq_ofNat_of_zero_le hlow
  exact w.copyOut_eq cap (Int.ofNat_le.mp hlen) (Int.ofNat_le.mp hdata)

theorem WF.clampLength_eq {c : BufferCacheBase} (w : c.WF) (cap : Int) (n : Nat)
    (data : List UInt8) :
    c.clampLength ⟨cap, n, data⟩ = ⟨cap, (c.contents.take n).length, data⟩ := by
  unfold clampLength
  rw [w.size_eq, List.length_take]
  split_ifs with h
  · rw [Nat.min_eq_right (by dsimp only at h; omega)]
  · rw [Nat.min_eq_left (by dsimp only at h; omega)]

private theorem take_length_take (q : List UInt8) (n : Nat) :
    q.take (q.take n).length = q.take n := by
  rw [List.take_eq_take_iff, List.length_take]
  omega

/-- The bytes that `have_a_look` and `read` copy, once the length is clamped. -/
theorem WF.copyOut_take {c : BufferCacheBase} (w : c.WF) (cap : Int) {n : Nat}
    {data : List UInt8} (hdata : n ≤ data.length) :
    c.copyOut ⟨cap, (c.contents.take n).length, data⟩ =
      some (c.contents.take n ++ data.drop (c.contents.take n).length) := by
  have hm : (c.contents.take n).length ≤ c.contents.length := by
    rw [List.length_take]
    omega
  have hm' : (c.contents.take n).length ≤ data.length := by
    rw [List.length_take]
    omega
  rw [w.copyOut_eq cap hm hm', take_length_take]

/-- `have_a_look` shows the front of the contents. -/
theorem WF.haveALook_eq {c : BufferCacheBase} (w : c.WF) (cap : Int) {n : Nat}
    {data : List UInt8} (hdata : n ≤ data.length) :
    c.haveALook ⟨cap, n, data⟩ =
      some (((c.contents.take n).length : Int), ⟨cap, (c.contents.take n).length,
        c.contents.take n ++ data.drop (c.contents.take n).length⟩) := by
  unfold haveALook
  rw [w.clampLength_eq]
  by_cases he : c.isEmpty = true
  · have hnil : c.contents = [] := w.isEmpty_iff.mp he
    rw [if_pos he, hnil]
    simp
  · rw [if_neg he, w.copyOut_take cap hdata]
    rfl

theorem ringSize_ringStep {n h t k : Nat} (hh : h ≤ n) (ht : t ≤ n)
    (hk : k ≤ ringSize n h t) : ringSize n (ringStep n h k) t = ringSize n h t - k := by
  unfold ringSize ringStep at *
  split_ifs at * <;> omega

/-- A move of the head by `k` bytes drops them from the contents. -/
theorem contents_ring_ringStep {d : List UInt8} {l : Int} {h t k : Nat} (hh : h ≤ d.length)
    (ht : t ≤ d.length) (hk : k ≤ ringSize d.length h t) :
    (ring d l (ringStep d.length h k) t).contents = (ring d l h t).contents.drop k := by
  have hstep : ringStep d.length h k ≤ d.length := by
    unfold ringSize ringStep at *
    split_ifs at * <;> omega
  apply List.ext_getElem?
  intro j
  rw [List.getElem?_drop, contents_ring_getElem? hstep ht, contents_ring_getElem? hh ht,
    ringSize_ringStep hh ht hk]
  unfold ringSize ringStep ringIndex at *
  split_ifs at * <;> first | omega | (congr 1; omega) | rfl

/-- `read` hands out the front of the contents and drops it. -/
theorem WF.read_eq {c : BufferCacheBase} (w : c.WF) (cap : Int) {n : Nat}
    {data : List UInt8} (hdata : n ≤ data.length) :
    ∃ c', c.read ⟨cap, n, data⟩ =
        some (((c.contents.take n).length : Int), ⟨cap, (c.contents.take n).length,
          c.contents.take n ++ data.drop (c.contents.take n).length⟩, c') ∧
      c'.WF ∧ c'.contents = c.contents.drop n ∧ c'.capacity = c.capacity := by
  unfold read
  rw [w.clampLength_eq]
  by_cases he : c.isEmpty = true
  · have hnil : c.contents = [] := w.isEmpty_iff.mp he
    refine ⟨c, ?_, w, ?_, rfl⟩
    · rw [if_pos he, hnil]
      simp
    · rw [hnil, List.drop_nil]
  · rw [if_neg he, w.copyOut_take cap hdata]
    obtain ⟨d, l, h, t, rfl, hh, ht, hd, htp⟩ := w.exists_ring
    have hlen := contents_ring_length (l := l) hh ht
    generalize hk : ((ring d l h t).contents.take n).length = k
    have hkn : k = min n (ring d l h t).contents.length := by
      rw [← hk, List.length_take]
    refine ⟨ring d l (ringStep d.length h k) t, ?_, ?_, ?_, rfl⟩
    · rw [Option.map_some]
      congr 3
      unfold ring ringStep
      dsimp only
      split_ifs <;> first | omega | (congr 1; omega) | rfl
    · refine wf_ring ?_ ht hd ?_ <;> unfold ringSize ringStep at * <;> split_ifs at * <;> omega
    · rw [contents_ring_ringStep hh ht (by omega), List.drop_eq_drop_iff]
      omega

theorem WF.clampLength_neg {c : BufferCacheBase} (w : c.WF) {cap n : Int} {data : List UInt8}
    (hn : n < 0) :
    c.clampLength ⟨cap, n, data⟩ = ⟨cap, n, data⟩ := by
  unfold clampLength
  rw [w.size_eq, if_neg (show ¬ n > _ by omega)]

/-- A copy of a negative length is undefined. -/
theorem WF.copyOut_neg {c : BufferCacheBase} (w : c.WF) {buf : Buffer} (hn : buf.length < 0) :
    c.copyOut buf = none := by
  have hhead := w.head_le
  unfold copyOut
  rw [if_pos (show c.buffer.capacity - c.head ≥ buf.length by omega), memcpy, if_neg (by omega)]

/-- So is one of more bytes than the block has. -/
theorem WF.copyOut_long {c : BufferCacheBase} (w : c.WF) {buf : Buffer}
    (hn : buf.data.length < buf.length) : c.copyOut buf = none := by
  have hhead := w.head_le
  unfold copyOut
  split
  · rw [memcpy, if_neg (by omega)]
  · dsimp only
    by_cases hfirst : c.buffer.capacity - c.head ≤ buf.data.length
    · have hcap := w.capacity_eq
      have hnonneg := w.head_nonneg
      obtain ⟨k, hk⟩ := Int.eq_ofNat_of_zero_le (show 0 ≤ c.buffer.capacity - c.head by omega)
      obtain ⟨h, hh⟩ := Int.eq_ofNat_of_zero_le hnonneg
      rw [hk, hh]
      have hcopy := memcpy_eq_some buf.data c.buffer.data 0 h k (by omega) (by omega)
      have hlength := splice_length buf.data c.buffer.data 0 h k (by omega) (by omega)
      rw [show ((0 : Nat) : Int) = 0 from rfl] at hcopy
      rw [hcopy, Option.bind_some, memcpy, if_neg (by rw [hlength]; omega)]
    · rw [memcpy, if_neg (by omega), Option.bind_none]

/-- A `read` of a negative length that finds a byte is undefined. -/
theorem WF.read_neg {c : BufferCacheBase} (w : c.WF) {cap n : Int} {data : List UInt8} (hn : n < 0)
    (hc : c.contents ≠ []) : c.read ⟨cap, n, data⟩ = none := by
  have hcopy : c.copyOut ⟨cap, n, data⟩ = none := w.copyOut_neg hn
  unfold read
  rw [w.clampLength_neg hn, if_neg fun he => hc (w.isEmpty_iff.mp he), hcopy, Option.map_none]

/-- A `read` of a negative length that finds nothing changes nothing. -/
theorem WF.read_neg_of_nil {c : BufferCacheBase} (w : c.WF) {cap n : Int} {data : List UInt8}
    (hn : n < 0) (hc : c.contents = []) : c.read ⟨cap, n, data⟩ = some (0, ⟨cap, n, data⟩, c) := by
  unfold read
  rw [w.clampLength_neg hn, if_pos (w.isEmpty_iff.mpr hc)]

/-! ## write -/

theorem isFull_ring {d : List UInt8} {l : Int} {h t : Nat} (hh : h ≤ d.length) (ht : t ≤ d.length)
    (hd : d.length < 2147483648) : (ring d l h t).isFull = true ↔ t + 1 = h := by
  unfold isFull ring toInt32
  simp only [beq_iff_eq]
  split_ifs <;> omega

/-- A block that finds the ring full, that is empty, or that is too long changes
nothing. -/
theorem write_rejected (c : BufferCacheBase) {buf : Buffer}
    (h : c.isFull = true ∨ buf.length ≤ 0 ∨ c.capacity - c.size < buf.length) :
    c.write buf = some (0, c) := by
  unfold write
  rw [if_pos]
  rcases h with h | h | h <;> simp [h]

/-- What a write that passes the checks does to the ring. -/
theorem write_ring {d bs : List UInt8} {l cap : Int} {h t n : Nat} (hh : h ≤ d.length)
    (ht : t ≤ d.length) (hd : d.length < 2147483648) (hfull : t + 1 ≠ h) (hn : 0 < n)
    (hfit : ringSize d.length h t + n ≤ d.length) (hbs : n ≤ bs.length) :
    ∃ d', (ring d l h t).write ⟨cap, n, bs⟩ =
        some ((n : Int), ring d' l h (ringStep d.length t n)) ∧ d'.length = d.length ∧
      ∀ k, d'[k]? =
        if k < t ∧ k + d.length < t + n then bs[k + (d.length - t)]?
        else if t ≤ k ∧ k < t + n ∧ k < d.length then bs[k - t]? else d[k]? := by
  unfold write
  dsimp only
  rw [if_neg]
  case hnc =>
    have h1 : (ring d l h t).isFull = false := by
      rw [Bool.eq_false_iff, ne_eq, isFull_ring hh ht hd]
      exact hfull
    rw [h1, size_ring hh hd]
    simp only [Bool.false_or, Bool.or_eq_true, decide_eq_true_eq]
    show ¬ ((n : Int) > (d.length : Int) - _ ∨ _)
    omega
  by_cases hstraight : t + n ≤ d.length
  · rw [if_pos (by dsimp only [ring]; omega)]
    dsimp only [ring]
    rw [show (0 : Int) = ((0 : Nat) : Int) from rfl,
      memcpy_eq_some d bs t 0 n (by omega) (by omega)]
    have hlen := splice_length d bs t 0 n (by omega) (by omega)
    refine ⟨_, ?_, hlen, ?_⟩
    · rw [Option.map_some, hlen, ringStep, if_pos hstraight]
      rfl
    · intro k
      rw [splice_getElem? _ _ _ _ _ (by omega) (by omega)]
      split_ifs <;> first | omega | (congr 1; omega) | rfl
  · rw [if_neg (by dsimp only [ring]; omega)]
    dsimp only [ring]
    rw [show (d.length : Int) - (t : Int) = ((d.length - t : Nat) : Int) by omega,
      show (0 : Int) = ((0 : Nat) : Int) from rfl,
      memcpy_eq_some d bs t 0 (d.length - t) (by omega) (by omega), Option.bind_some,
      show (n : Int) - ((d.length - t : Nat) : Int) = ((n - (d.length - t) : Nat) : Int) by omega]
    have hl1 := splice_length d bs t 0 (d.length - t) (by omega) (by omega)
    have hwrap : n - (d.length - t) ≤ d.length := by
      unfold ringSize at hfit
      split_ifs at hfit <;> omega
    rw [memcpy_eq_some _ bs 0 (d.length - t) _ (by omega) (by omega)]
    have hl2 := splice_length _ bs 0 (d.length - t) (n - (d.length - t))
      (show _ ≤ (d.take t ++ (bs.drop 0).take (d.length - t) ++
        d.drop (t + (d.length - t))).length by omega) (by omega)
    refine ⟨_, ?_, by rw [hl2, hl1], ?_⟩
    · rw [Option.map_some, hl2, hl1, ringStep, if_neg hstraight]
      congr 4
      omega
    · intro k
      rw [splice_getElem? _ _ _ _ _ (by omega) (by omega),
        splice_getElem? _ _ _ _ _ (by omega) (by omega)]
      split_ifs <;> first | omega | (congr 1; omega) | rfl

theorem contents_ring_write {d d' bs : List UInt8} {l : Int} {h t n : Nat} (hh : h ≤ d.length)
    (ht : t ≤ d.length) (hlen : d'.length = d.length)
    (hfit : ringSize d.length h t + n < d.length ∨ ringSize d.length h t + n = d.length ∧ h = 0)
    (hd' : ∀ k, d'[k]? =
      if k < t ∧ k + d.length < t + n then bs[k + (d.length - t)]?
      else if t ≤ k ∧ k < t + n ∧ k < d.length then bs[k - t]? else d[k]?) :
    (ring d' l h (ringStep d.length t n)).contents = (ring d l h t).contents ++ bs.take n := by
  have hstep : ringStep d.length t n ≤ d.length ∧
      ringSize d.length h (ringStep d.length t n) = ringSize d.length h t + n := by
    unfold ringSize ringStep at *
    split_ifs at * <;> omega
  have hsize : ringSize d.length h t = if h ≤ t then t - h else t + d.length - h := rfl
  apply List.ext_getElem?
  intro k
  rw [List.getElem?_append, contents_ring_length hh ht, contents_ring_getElem? hh ht,
    contents_ring_getElem? (by omega) (by omega), hlen, hstep.2, List.getElem?_take, hd']
  unfold ringIndex
  split_ifs at * <;> first | omega | (congr 1; omega) | rfl

/-- A block that leaves a byte free, or that fills a ring whose head is at
zero, goes behind the contents. -/
theorem WF.write_eq {c : BufferCacheBase} (w : c.WF) (cap : Int) {n : Nat} {bs : List UInt8}
    (hn : 0 < n) (hbs : n ≤ bs.length)
    (hfit : (c.contents.length + n : Int) < c.capacity ∨
      (c.contents.length + n : Int) = c.capacity ∧ c.head = 0) :
    ∃ c', c.write ⟨cap, n, bs⟩ = some ((n : Int), c') ∧ c'.WF ∧
      c'.contents = c.contents ++ bs.take n ∧ c'.capacity = c.capacity ∧ c'.head = c.head := by
  obtain ⟨d, l, h, t, rfl, hh, ht, hd, htp⟩ := w.exists_ring
  rw [contents_ring_length hh ht] at hfit
  have hfit' : ringSize d.length h t + n < d.length ∨
      ringSize d.length h t + n = d.length ∧ h = 0 := by
    change _ < (d.length : Int) ∨ _ = (d.length : Int) ∧ (h : Int) = 0 at hfit
    omega
  have hfull : t + 1 ≠ h := by
    unfold ringSize at hfit'
    split_ifs at hfit' <;> omega
  obtain ⟨d', hw, hlen, hd'⟩ :=
    write_ring (l := l) hh ht hd hfull hn (by omega) hbs
  refine ⟨_, hw, ?_, contents_ring_write hh ht hlen hfit' hd', ?_, rfl⟩
  · refine wf_ring (by omega) ?_ (by omega) ?_ <;> unfold ringSize ringStep at * <;>
      split_ifs at * <;> omega
  · show (d'.length : Int) = d.length
    rw [hlen]

/-- A block of exactly the free size behind a head that is not zero is either
refused, when one byte is free, or makes the cache look empty. -/
theorem WF.write_exact_fill {c : BufferCacheBase} (w : c.WF) (cap : Int) {n : Nat}
    {bs : List UInt8} (hn : 0 < n) (hbs : n ≤ bs.length)
    (hfill : (c.contents.length + n : Int) = c.capacity) (hhead : c.head ≠ 0) :
    c.write ⟨cap, n, bs⟩ = some (0, c) ∨
      ∃ c', c.write ⟨cap, n, bs⟩ = some ((n : Int), c') ∧ c'.WF ∧ c'.contents = [] := by
  obtain ⟨d, l, h, t, rfl, hh, ht, hd, htp⟩ := w.exists_ring
  rw [contents_ring_length hh ht] at hfill
  have hfill' : ringSize d.length h t + n = d.length := by
    change _ = (d.length : Int) at hfill
    omega
  have hh0 : h ≠ 0 := fun h0 => hhead (by rw [h0]; rfl)
  by_cases hfull : t + 1 = h
  · left
    unfold write
    rw [if_pos]
    simp [(isFull_ring hh ht hd).mpr hfull]
  · right
    obtain ⟨d', hw, hlen, -⟩ :=
      write_ring (l := l) hh ht hd hfull hn (Nat.le_of_eq hfill') hbs
    have hstep : ringStep d.length t n = h := by
      unfold ringSize ringStep at *
      split_ifs at * <;> omega
    rw [hstep] at hw
    refine ⟨_, hw, wf_ring (by omega) (by omega) (by omega) (by omega), ?_⟩
    rw [← List.length_eq_zero_iff, contents_ring_length (by omega) (by omega), ringSize,
      if_pos (Nat.le_refl h), Nat.sub_self]

/-! ## A fresh cache -/

theorem new_wf (size : Int) : (new size).WF := by
  have hb := toInt32_bounds (toUInt32 size)
  unfold new
  rw [bufferCalloc_eq]
  split_ifs
  · constructor <;> simp <;> omega
  · constructor <;> simp

theorem contents_new (size : Int) : (new size).contents = [] := by
  rw [← (new_wf size).isEmpty_iff]
  rfl

end BufferCacheBase

end CppRpc
