import CppRpc.Util.PackageWrite

/-!
# The socket loops of both ends

`RequestHandle` and `ClientService` read and write their sockets by the same
two loops over their caches, with blocks of `BLOCK_SIZE` bytes.  The functions
here are those loops up to what each end does with a payload: `readSocket`
answers the buffers that go to `handle_request`, or to the `ResponseHandle`, in
order.  A closed connection is not here, it moves no byte.

`readSocket_taken` and `readSocket_dropped` say what one `read_socket` does to
the contents of the read cache, and `writeTurn_eq` what one turn of the loop in
`write_socket` does to those of the write cache.
-/

namespace CppRpc

open CData

/-- `BLOCK_SIZE`, the same in both ends. -/
def BLOCK_SIZE : Nat := 2048

/-- What `read_package` hands over: the length that goes to the caller and the
bytes it covers. -/
structure Payload where
  length : Int
  bytes : List UInt8
  deriving DecidableEq

/-- The payload in a buffer that `read_package` filled. -/
def Payload.ofBuffer (b : Buffer) : Payload := ⟨b.length, b.data.take b.length.toNat⟩

/-- The payload that a list of bytes is. -/
def Payload.ofBytes (p : List UInt8) : Payload := ⟨p.length, p⟩

/-- `while(read_package(head, buffer))`: the buffers handed over, in order, and
the cache.  Every package takes its header off the cache, so fuel above the
size of the cache never runs out (`readPackages_eq`). -/
def readPackages : Nat → BufferCache → Header → Buffer → Option (List Buffer × BufferCache)
  | 0, c, _, _ => some ([], c)
  | fuel + 1, c, head, buffer =>
      (c.readPackage head buffer).bind fun r =>
        if r.1 then
          (readPackages fuel r.2.2.2 r.2.1 r.2.2.1).map fun t => (r.2.2.1 :: t.1, t.2)
        else
          some ([], r.2.2.2)

/-- `read_socket` on the bytes that `read(fd, buffer.data, BLOCK_SIZE)` got.
The result of `m_read_cache.write` is not looked at. -/
def readSocket (cache : BufferCache) (block : List UInt8) :
    Option (List Buffer × BufferCache) :=
  let buffer := bufferCalloc BLOCK_SIZE
  (memcpy buffer.data 0 block 0 block.length).bind fun data =>
    let buffer := { buffer with data, length := toInt32 block.length }
    (cache.write buffer).bind fun r =>
      -- `Header()` leaves `magic` unset; `read_package` writes it before it reads it.
      readPackages (r.2.size.toNat + 1) r.2 ⟨0, 0⟩ buffer

/-- The first part of a turn of the loop in `write_socket`: `tmp` with the
bytes that are offered to the socket. -/
def lookTurn (cache : BufferCache) (tmp : Buffer) : Option Buffer :=
  (cache.haveALook { tmp with length := BLOCK_SIZE }).map (·.2)

/-- The second part, when `write(fd, ..)` answered `len`: `tmp` and the cache. -/
def takeTurn (cache : BufferCache) (tmp : Buffer) (len : Int) : Option (Buffer × BufferCache) :=
  let tmp := { tmp with length := toInt32 len }
  if len > 0 then (cache.read tmp).map (·.2) else some (tmp, cache)

/-- A whole turn, when `write(fd, ..)` answers `result`: the bytes that went
out, `tmp` and the cache.  The answer is kept in a `size_t`, so an error is a
huge length here. -/
def writeTurn (cache : BufferCache) (tmp : Buffer) (result : Int) :
    Option (List UInt8 × Buffer × BufferCache) :=
  (lookTurn cache tmp).bind fun tmp =>
    (takeTurn cache tmp (toSizeT result)).map fun r => (tmp.data.take result.toNat, r.1, r.2)

/-- `IoService::Event`, the same in both ends. -/
inductive IoEvent
  | E_READ
  | E_WRITE
  | E_RW
  deriving DecidableEq

/-- Whether `epoll_event` asks for `EPOLLIN`. -/
def IoEvent.epollIn : IoEvent → Bool
  | .E_READ | .E_RW => true
  | .E_WRITE => false

/-- Whether `epoll_event` asks for `EPOLLOUT`. -/
def IoEvent.epollOut : IoEvent → Bool
  | .E_WRITE | .E_RW => true
  | .E_READ => false

/-! ## read_socket -/

open BufferCacheBase

/-- The read loop hands over the complete frames of the contents and leaves
the rest. -/
theorem readPackages_eq {c : BufferCache} (w : c.WF) (head : Header) {buffer : Buffer}
    (hb : buffer.Allocated) {fuel : Nat} (hfuel : c.contents.length < fuel)
    (hu : ¬ Underflows (frameCodec.parseAll c.contents).2) :
    ∃ bufs c', readPackages fuel c head buffer = some (bufs, c') ∧ c'.WF ∧
      c'.contents = (frameCodec.parseAll c.contents).2 ∧ c'.capacity = c.capacity ∧
      bufs.map Payload.ofBuffer = (frameCodec.parseAll c.contents).1.map Payload.ofBytes := by
  induction fuel generalizing c head buffer with
  | zero => exact absurd hfuel (Nat.not_lt_zero _)
  | succ fuel ih =>
    cases hdec : frameCodec.parse c.contents with
    | none =>
      rw [frameCodec.parseAll_of_none hdec] at hu ⊢
      obtain ⟨head', hread⟩ := w.readPackage_none head buffer hdec hu
      refine ⟨[], c, ?_, w, rfl, rfl, rfl⟩
      rw [readPackages, hread, Option.bind_some, if_neg Bool.false_ne_true]
    | some q =>
      obtain ⟨p, r⟩ := q
      have hshort := frameCodec.shorter hdec
      rw [frameCodec.parseAll_of_some hdec] at hu ⊢
      obtain ⟨buffer', c₁, hread, w₁, hc₁, hcap₁, hb', hlen, -, hdata⟩ :=
        w.readPackage_frame head hb hdec
      rw [← hc₁] at hu hshort ⊢
      obtain ⟨bufs, c', hloop, w', hc', hcap', hmap⟩ := ih w₁ _ hb' (by omega) hu
      refine ⟨buffer' :: bufs, c', ?_, w', hc', hcap'.trans hcap₁, ?_⟩
      · rw [readPackages, hread, Option.bind_some, if_pos rfl, hloop, Option.map_some]
      · rw [List.map_cons, List.map_cons, hmap]
        congr 1
        rw [Payload.ofBuffer, hlen, Int.toNat_natCast, hdata, Payload.ofBytes]

theorem bufferCalloc_block : (bufferCalloc BLOCK_SIZE).data.length = BLOCK_SIZE := by
  rw [bufferCalloc_eq, toInt32_eq_self (by decide) (by decide), if_pos (by decide)]
  exact List.length_replicate

/-- The buffer that `read(fd, buffer.data, ..)` filled. -/
theorem blockBuffer_eq {block : List UInt8} (hblock : block.length ≤ BLOCK_SIZE) :
    ∃ data, memcpy (bufferCalloc BLOCK_SIZE).data 0 block 0 block.length = some data ∧
      data.take block.length = block ∧ block.length ≤ data.length ∧
      (⟨(bufferCalloc BLOCK_SIZE).capacity, block.length, data⟩ : Buffer).Allocated ∧
      toInt32 block.length = block.length := by
  have halloc := bufferCalloc_allocated BLOCK_SIZE
  have hdata := bufferCalloc_block
  have hcopy := memcpy_eq_some (bufferCalloc BLOCK_SIZE).data block 0 0 block.length
    (by omega) (by omega)
  have hlen := splice_length (bufferCalloc BLOCK_SIZE).data block 0 0 block.length
    (by omega) (by omega)
  refine ⟨_, hcopy, ?_, by omega, ⟨?_, halloc.capacity_lt⟩, ?_⟩
  · rw [List.take_zero, List.nil_append, List.drop_zero, List.take_length, List.take_left' rfl]
  · dsimp only
    rw [hlen]
    exact halloc.capacity_eq
  · unfold BLOCK_SIZE at hblock
    exact toInt32_eq_self (by omega) (by omega)

/-- A block that goes into the read cache: the complete frames of the contents
and the block are handed over, and the rest stays. -/
theorem readSocket_taken {c : BufferCache} (w : c.WF) {block : List UInt8}
    (h0 : 0 < block.length) (hblock : block.length ≤ BLOCK_SIZE)
    (hfit : (c.contents.length + block.length : Int) < c.capacity ∨
      (c.contents.length + block.length : Int) = c.capacity ∧ c.head = 0)
    (hu : ¬ Underflows (frameCodec.parseAll (c.contents ++ block)).2) :
    ∃ bufs c', readSocket c block = some (bufs, c') ∧ c'.WF ∧
      c'.contents = (frameCodec.parseAll (c.contents ++ block)).2 ∧ c'.capacity = c.capacity ∧
      bufs.map Payload.ofBuffer =
        (frameCodec.parseAll (c.contents ++ block)).1.map Payload.ofBytes := by
  obtain ⟨data, hcopy, hdata, hle, halloc, hlen⟩ := blockBuffer_eq hblock
  obtain ⟨c₁, hw, w₁, hc₁, hcap₁, -⟩ :=
    w.write_eq (bufferCalloc BLOCK_SIZE).capacity h0 hle hfit
  rw [hdata] at hc₁
  rw [← hc₁] at hu ⊢
  obtain ⟨bufs, c', hloop, w', hc', hcap', hmap⟩ :=
    readPackages_eq w₁ ⟨0, 0⟩ halloc
      (show c₁.contents.length < c₁.size.toNat + 1 by rw [w₁.size_eq]; omega) hu
  refine ⟨bufs, c', ?_, w', hc', hcap'.trans hcap₁, hmap⟩
  rw [readSocket, hcopy, Option.bind_some]
  dsimp only
  rw [hlen, hw, Option.bind_some]
  exact hloop

/-- A block that the read cache refuses is gone. -/
theorem readSocket_dropped {c : BufferCache} (w : c.WF) {block : List UInt8}
    (hblock : block.length ≤ BLOCK_SIZE)
    (hfull : c.isFull = true ∨ c.capacity - c.size < block.length)
    (hu : ¬ Underflows (frameCodec.parseAll c.contents).2) :
    ∃ bufs c', readSocket c block = some (bufs, c') ∧ c'.WF ∧
      c'.contents = (frameCodec.parseAll c.contents).2 ∧ c'.capacity = c.capacity ∧
      bufs.map Payload.ofBuffer = (frameCodec.parseAll c.contents).1.map Payload.ofBytes := by
  obtain ⟨data, hcopy, -, -, halloc, hlen⟩ := blockBuffer_eq hblock
  have hrej : c.write ⟨(bufferCalloc BLOCK_SIZE).capacity, block.length, data⟩ = some (0, c) := by
    apply write_rejected
    rcases hfull with hfull | hfull
    · exact Or.inl hfull
    · exact Or.inr (Or.inr hfull)
  obtain ⟨bufs, c', hloop, w', hc', hcap', hmap⟩ :=
    readPackages_eq w ⟨0, 0⟩ halloc
      (show c.contents.length < c.size.toNat + 1 by rw [w.size_eq]; omega) hu
  refine ⟨bufs, c', ?_, w', hc', hcap', hmap⟩
  rw [readSocket, hcopy, Option.bind_some]
  dsimp only
  rw [hlen, hrej, Option.bind_some]
  exact hloop

/-! ## write_socket -/

/-- The first part of a turn: `tmp` starts with the front of the contents. -/
theorem lookTurn_eq {c : BufferCache} (w : c.WF) {tmp : Buffer}
    (htmp : tmp.data.length = BLOCK_SIZE) :
    ∃ tmp', lookTurn c tmp = some tmp' ∧ tmp'.data.length = BLOCK_SIZE ∧
      tmp'.length = (c.contents.take BLOCK_SIZE).length ∧
      ∀ k ≤ (c.contents.take BLOCK_SIZE).length, tmp'.data.take k = c.contents.take k := by
  have hlook := w.haveALook_eq tmp.capacity (Nat.le_of_eq htmp.symm)
  generalize hm : (c.contents.take BLOCK_SIZE).length = m at hlook
  rw [List.length_take] at hm
  unfold lookTurn
  rw [hlook, Option.map_some]
  refine ⟨_, rfl, ?_, rfl, fun k hk => ?_⟩
  · dsimp only
    rw [List.length_append, List.length_take, List.length_drop]
    omega
  · dsimp only
    rw [List.take_append_of_le_length (by rw [List.length_take]; omega), List.take_take,
      Nat.min_eq_left (by omega)]

/-- The second part, when the socket took `k` bytes: they leave the cache. -/
theorem takeTurn_eq {c : BufferCache} (w : c.WF) {tmp : Buffer}
    (htmp : tmp.data.length = BLOCK_SIZE) {k : Nat} (hk : k ≤ BLOCK_SIZE) :
    ∃ tmp' c', takeTurn c tmp (toSizeT k) = some (tmp', c') ∧ tmp'.data.length = BLOCK_SIZE ∧
      c'.WF ∧ c'.contents = c.contents.drop k ∧ c'.capacity = c.capacity := by
  have hk' : k ≤ 2048 := hk
  have hsize : toSizeT k = k := toSizeT_eq_self (by omega) (by omega)
  have hint : toInt32 k = k := toInt32_eq_self (by omega) (by omega)
  unfold takeTurn
  dsimp only
  rw [hsize, hint]
  by_cases hpos : (k : Int) > 0
  · obtain ⟨c', hread, w', hc', hcap'⟩ :=
      w.read_eq tmp.capacity (show k ≤ tmp.data.length by rw [htmp]; exact hk)
    rw [if_pos hpos, hread, Option.map_some]
    refine ⟨_, c', rfl, ?_, w', hc', hcap'⟩
    rw [List.length_append, List.length_drop, List.length_take, htmp]
    omega
  · obtain rfl : k = 0 := by omega
    rw [if_neg hpos]
    exact ⟨_, c, rfl, htmp, w, rfl, rfl⟩

/-- After an error, the second part is a `read` of `-1` bytes. -/
theorem takeTurn_error (c : BufferCache) (tmp : Buffer) :
    takeTurn c tmp (toSizeT (-1)) = (c.read ⟨tmp.capacity, -1, tmp.data⟩).map (·.2) := by
  unfold takeTurn
  rw [if_pos (by decide)]
  rfl

/-- The second part, whatever the socket has answered, if an error has met an
empty cache. -/
theorem takeTurn_result {c : BufferCache} (w : c.WF) {tmp : Buffer} {result : Int}
    (htmp : tmp.data.length = BLOCK_SIZE) (hlow : -1 ≤ result) (hblock : result ≤ BLOCK_SIZE)
    (hok : result = -1 → c.isEmpty = true) :
    ∃ tmp' c', takeTurn c tmp (toSizeT result) = some (tmp', c') ∧
      tmp'.data.length = BLOCK_SIZE ∧ c'.WF ∧ c'.contents = c.contents.drop result.toNat := by
  by_cases herr : result = -1
  · have hnil : c.contents = [] := w.isEmpty_iff.mp (hok herr)
    rw [herr, takeTurn_error, w.read_neg_of_nil (by decide) hnil, Option.map_some]
    refine ⟨_, c, rfl, htmp, w, ?_⟩
    rw [hnil, List.drop_nil]
  · obtain ⟨k, rfl⟩ := Int.eq_ofNat_of_zero_le (show 0 ≤ result by omega)
    obtain ⟨tmp', c', htake, htmp', w', hc', -⟩ := takeTurn_eq w htmp (show k ≤ BLOCK_SIZE by omega)
    exact ⟨tmp', c', htake, htmp', w', hc'⟩

/-- An error with bytes in the cache copies `-1` bytes. -/
theorem takeTurn_undefined {c : BufferCache} (w : c.WF) (tmp : Buffer)
    (hempty : ¬ c.isEmpty = true) : takeTurn c tmp (toSizeT (-1)) = none := by
  rw [takeTurn_error, w.read_neg (by decide) fun hnil => hempty (w.isEmpty_iff.mpr hnil),
    Option.map_none]

/-- When the socket took as many bytes as there are, and the second part is
defined, nothing is left. -/
theorem takeTurn_all {c : BufferCache} (w : c.WF) {tmp : Buffer} {result : Int}
    (hlow : -1 ≤ result) (hall : result.toNat = c.contents.length) {r : Buffer × BufferCache}
    (hr : takeTurn c tmp (toSizeT result) = some r) : r.2.contents = [] := by
  by_cases hnil : c.contents = []
  · by_cases herr : result = -1
    · rw [herr, takeTurn_error, w.read_neg_of_nil (by decide) hnil] at hr
      cases hr
      exact hnil
    · obtain rfl : result = 0 := by
        rw [hnil, List.length_nil] at hall
        omega
      cases hr
      exact hnil
  · have hpos := List.length_pos_iff.mpr hnil
    have hle : (c.contents.length : Int) ≤ c.buffer.capacity := w.contents_length_le
    have hlt := w.capacity_lt
    obtain rfl : result = (c.contents.length : Int) := by omega
    unfold takeTurn at hr
    dsimp only at hr
    rw [toSizeT_eq_self (by omega) (by omega), toInt32_eq_self (by omega) (by omega),
      if_pos (by omega)] at hr
    obtain ⟨r', hread, rfl⟩ := Option.map_eq_some_iff.mp hr
    by_cases hfits : c.contents.length ≤ tmp.data.length
    · obtain ⟨c', hread', -, hc', -⟩ := w.read_eq tmp.capacity hfits
      cases hread.symm.trans hread'
      rw [hc', List.drop_length]
    · have hcopy : c.copyOut ⟨tmp.capacity, c.contents.length, tmp.data⟩ = none :=
        w.copyOut_long (by dsimp only; omega)
      unfold BufferCacheBase.read at hread
      rw [w.clampLength_eq, List.take_length, if_neg fun he => hnil (w.isEmpty_iff.mp he),
        hcopy] at hread
      cases hread

/-- What the second part keeps.  If it moves the head, it moves it off zero. -/
theorem takeTurn_keeps {c : BufferCache} (w : c.WF) {tmp : Buffer} {len : Int}
    {r : Buffer × BufferCache} (hr : takeTurn c tmp len = some r) :
    r.2.WF ∧ r.2.capacity = c.capacity ∧ (r.2 = c ∨ r.2.head ≠ 0) := by
  unfold takeTurn at hr
  dsimp only at hr
  split at hr
  · obtain ⟨r', hread, rfl⟩ := Option.map_eq_some_iff.mp hr
    exact w.read_keeps hread
  · cases hr
    exact ⟨w, rfl, Or.inl rfl⟩

/-- One turn of the write loop, when the socket takes `k` of the bytes that it
is offered: these bytes, and no others, leave the cache. -/
theorem writeTurn_eq {c : BufferCache} (w : c.WF) {tmp : Buffer}
    (htmp : tmp.data.length = BLOCK_SIZE) {k : Nat} (hk : k ≤ BLOCK_SIZE)
    (hoffered : k ≤ c.contents.length) :
    ∃ tmp' c', writeTurn c tmp k = some (c.contents.take k, tmp', c') ∧
      tmp'.data.length = BLOCK_SIZE ∧ c'.WF ∧ c'.contents = c.contents.drop k ∧
      c'.capacity = c.capacity := by
  obtain ⟨tmp₁, hlook, htmp₁, -, hdata⟩ := lookTurn_eq w htmp
  obtain ⟨tmp', c', htake, htmp', w', hc', hcap'⟩ := takeTurn_eq w htmp₁ hk
  refine ⟨tmp', c', ?_, htmp', w', hc', hcap'⟩
  have hsent := hdata k (by rw [List.length_take]; exact Nat.le_min.mpr ⟨hk, hoffered⟩)
  unfold writeTurn
  rw [hlook, Option.bind_some, htake, Option.map_some]
  dsimp only
  rw [Int.toNat_natCast, hsent]

end CppRpc
