import CppRpc.Lib.Runs
import CppRpc.Net.Socket

/-!
# What a receiver hands over

One end of a connection that reads whatever its peer sends, cut into blocks in
any way.  `frames` is the reference: the payloads of the whole received
stream, decoded from its first byte on.  The payloads handed over should be a
prefix of them.

`read_socket` does not look at the result of `m_read_cache.write`, so a block
that does not fit is gone and the next one is appended behind the gap.
`Harmless` says which blocks do no damage.  Either the block goes into the
ring, without an exact fill behind a head that is not at zero, and leaves no
header with a negative length that `read_package` would accept; or the ring
refuses it while its contents are `Blocked`: they start with a header that no
later byte can complete.  `handed_prefix` is the result for the runs of these
blocks, and `dropped_block_is_spliced` a run that meets a refused block
otherwise.
-/

namespace CppRpc

open CData Runs BufferCacheBase

/-- The payloads of a stream.  Decoding stops at the first frame that is not
complete or has a bad header. -/
def frames (stream : List UInt8) : List Payload :=
  (frameCodec.parseAll stream).1.map Payload.ofBytes

theorem frames_mono (xs ys : List UInt8) : frames xs <+: frames (xs ++ ys) := by
  unfold frames
  rw [frameCodec.parseAll_append, List.map_append]
  exact List.prefix_append _ _

/-! ## Contents that never complete a frame -/

/-- The contents `q` of a ring of `cap` bytes start with a header that stops
`read_package` for good, or the ring does not even hold a header. -/
def Blocked (cap : Int) (q : List UInt8) : Prop :=
  cap < 8 ∨ 8 ≤ q.length ∧
    (toUInt32 (Header.ofBytes q).magic ≠ MAGIC ∨ (Header.ofBytes q).length < -8 ∨
      cap < 8 + (Header.ofBytes q).length)

instance (cap : Int) : DecidablePred (Blocked cap) := fun _ => inferInstanceAs (Decidable (_ ∨ _))

theorem Blocked.append {cap : Int} {q : List UInt8} (h : Blocked cap q) (ys : List UInt8) :
    Blocked cap (q ++ ys) := by
  rcases h with h | ⟨h8, h⟩
  · exact Or.inl h
  · refine Or.inr ⟨by rw [List.length_append]; omega, ?_⟩
    rw [Header.ofBytes_append h8]
    exact h

theorem Blocked.decodeFrame_eq {cap : Int} {q : List UInt8} (h : Blocked cap q)
    (hq : (q.length : Int) ≤ cap) : decodeFrame q = none := by
  unfold decodeFrame
  dsimp only
  rw [if_neg]
  rintro ⟨h8, hmagic, h0, hlen⟩
  rcases h with h | ⟨-, h | h | h⟩
  · omega
  · exact h hmagic
  · omega
  · omega

theorem Blocked.not_underflows {cap : Int} {q : List UInt8} (h : Blocked cap q)
    (hq : (q.length : Int) ≤ cap) : ¬ Underflows q := by
  rintro ⟨h8, hmagic, hlow, hneg⟩
  rcases h with h | ⟨-, h | h | h⟩
  · omega
  · exact h hmagic
  · omega
  · omega

/-! ## The receiver -/

/-- A read cache.  `received` and `handed` are histories: every byte that
`read()` answered, and the payloads that `read_package` handed over. -/
structure Receiver where
  cache : BufferCache
  received : List UInt8
  handed : List Payload

namespace Receiver

def new (size : Int) : Receiver := ⟨BufferCacheBase.new size, [], []⟩

/-- One `read_socket` whose `read()` answers `block`. -/
def step (s : Receiver) (block : List UInt8) : Option Receiver :=
  if 1 ≤ block.length ∧ block.length ≤ BLOCK_SIZE then
    (readSocket s.cache block).map fun r =>
      { cache := r.2
        received := s.received ++ block
        handed := s.handed ++ r.1.map Payload.ofBuffer }
  else none

/-- The block goes into the ring whole and stays readable. -/
def Fits (c : BufferCache) (block : List UInt8) : Prop :=
  c.size + block.length < c.capacity ∨ c.size + block.length = c.capacity ∧ c.head = 0

/-- `write` refuses the block. -/
def Refused (c : BufferCache) (block : List UInt8) : Prop :=
  c.isFull = true ∨ c.capacity - c.size < block.length

/-- The condition on the state before a `read_socket` and on the block. -/
def Harmless (s : Receiver) (block : List UInt8) : Prop :=
  Fits s.cache block ∧ ¬ Underflows (frameCodec.parseAll (s.cache.contents ++ block)).2 ∨
    Refused s.cache block ∧ Blocked s.cache.capacity s.cache.contents

instance (c : BufferCache) : DecidablePred (Fits c) := fun _ => inferInstanceAs (Decidable (_ ∨ _))

instance (c : BufferCache) : DecidablePred (Refused c) :=
  fun _ => inferInstanceAs (Decidable (_ ∨ _))

instance (s : Receiver) : DecidablePred s.Harmless := fun _ => inferInstanceAs (Decidable (_ ∨ _))

/-- The invariant.  Until a block is refused, the cache holds the part of the
stream behind the frames handed over; a cache that has refused one is blocked. -/
structure Inv (s : Receiver) : Prop where
  cache_wf : s.cache.WF
  incomplete : decodeFrame s.cache.contents = none
  handed_prefix : s.handed <+: frames s.received
  in_step : s.cache.contents = (frameCodec.parseAll s.received).2 ∧ s.handed = frames s.received ∨
    Blocked s.cache.capacity s.cache.contents

theorem inv_new (size : Int) : (new size).Inv := by
  have hnil : (new size).cache.contents = [] := contents_new size
  refine ⟨new_wf size, ?_, List.prefix_rfl, Or.inl ⟨?_, rfl⟩⟩
  · rw [hnil]
    rfl
  · rw [hnil]
    rfl

variable {s : Receiver} {block : List UInt8}

theorem Inv.fits (h : s.Inv) (h1 : 1 ≤ block.length ∧ block.length ≤ BLOCK_SIZE)
    (hfit : Fits s.cache block)
    (hu : ¬ Underflows (frameCodec.parseAll (s.cache.contents ++ block)).2) :
    ∃ s', s.step block = some s' ∧ s'.Inv := by
  unfold Fits at hfit
  rw [h.cache_wf.size_eq] at hfit
  obtain ⟨bufs, c', hr, w', hc', hcap', hmap⟩ := readSocket_taken h.cache_wf h1.1 h1.2 hfit hu
  have hstep : s.step block = some
      { cache := c'
        received := s.received ++ block
        handed := s.handed ++ bufs.map Payload.ofBuffer } := by
    rw [step, if_pos h1, hr, Option.map_some]
  have hnone : decodeFrame c'.contents = none := by
    rw [hc']
    exact frameCodec.parse_parseAll_rest _
  rcases h.in_step with ⟨hcontents, hhanded⟩ | hblocked
  · -- The cache is in step: parsing goes on where it stopped.
    have happ := frameCodec.parseAll_append s.received block
    rw [← hcontents] at happ
    have hall : s.handed ++ bufs.map Payload.ofBuffer = frames (s.received ++ block) := by
      rw [frames, happ, List.map_append, hmap, hhanded, frames]
    refine ⟨_, hstep, w', hnone, hall ▸ List.prefix_rfl, Or.inl ⟨?_, hall⟩⟩
    show c'.contents = (frameCodec.parseAll (s.received ++ block)).2
    rw [happ, hc']
  · -- The block lands behind a header that stops the read loop.
    have hblocked' := hblocked.append block
    have hle : ((s.cache.contents ++ block).length : Int) ≤ s.cache.capacity := by
      rw [List.length_append]
      omega
    have hparse := frameCodec.parseAll_of_none (hblocked'.decodeFrame_eq hle)
    rw [hparse] at hc' hmap
    obtain rfl := List.map_eq_nil_iff.mp hmap
    refine ⟨_, hstep, w', hnone, ?_, Or.inr ?_⟩
    · show s.handed ++ [] <+: frames (s.received ++ block)
      rw [List.append_nil]
      exact h.handed_prefix.trans (frames_mono _ _)
    · show Blocked c'.capacity c'.contents
      rw [hcap', hc']
      exact hblocked'

theorem Inv.refused (h : s.Inv) (h1 : 1 ≤ block.length ∧ block.length ≤ BLOCK_SIZE)
    (hrefused : Refused s.cache block) (hblocked : Blocked s.cache.capacity s.cache.contents) :
    ∃ s', s.step block = some s' ∧ s'.Inv := by
  have hle : (s.cache.contents.length : Int) ≤ s.cache.capacity := by
    have := h.cache_wf.contents_length_le
    omega
  have hparse := frameCodec.parseAll_of_none h.incomplete
  obtain ⟨bufs, c', hr, w', hc', hcap', hmap⟩ :=
    readSocket_dropped h.cache_wf h1.2 hrefused (by rw [hparse]; exact hblocked.not_underflows hle)
  rw [hparse] at hc' hmap
  obtain rfl := List.map_eq_nil_iff.mp hmap
  have hstep : s.step block = some
      { cache := c', received := s.received ++ block, handed := s.handed ++ [] } := by
    rw [step, if_pos h1, hr, Option.map_some, List.map_nil]
  refine ⟨_, hstep, w', ?_, ?_, Or.inr ?_⟩
  · rw [hc']
    exact h.incomplete
  · rw [List.append_nil]
    exact h.handed_prefix.trans (frames_mono _ _)
  · show Blocked c'.capacity c'.contents
    rw [hcap', hc']
    exact hblocked

theorem Inv.step (h : s.Inv) (h1 : 1 ≤ block.length ∧ block.length ≤ BLOCK_SIZE)
    (hok : s.Harmless block) : ∃ s', s.step block = some s' ∧ s'.Inv := by
  rcases hok with ⟨hfit, hu⟩ | ⟨hrefused, hblocked⟩
  · exact h.fits h1 hfit hu
  · exact h.refused h1 hrefused hblocked

/-- In every run of harmless blocks the payloads handed over are a prefix of
the frames of the received stream, and the next harmless block is read without
undefined behaviour. -/
theorem handed_prefix_of_harmless (size : Int)
    (h : ReachableIf Receiver.step Harmless (new size) s) :
    s.handed <+: frames s.received ∧
      ∀ block, 1 ≤ block.length → block.length ≤ BLOCK_SIZE → s.Harmless block →
        (s.step block).isSome := by
  have hinv : s.Inv := by
    refine h.invariant (inv_new size) ?_
    intro s block s' hs hok hstep
    by_cases h1 : 1 ≤ block.length ∧ block.length ≤ BLOCK_SIZE
    · obtain ⟨s₁, hs₁, hinv₁⟩ := hs.step h1 hok
      rw [hs₁] at hstep
      cases hstep
      exact hinv₁
    · rw [Receiver.step, if_neg h1] at hstep
      cases hstep
  refine ⟨hinv.handed_prefix, ?_⟩
  intro block h0 hlen hok
  obtain ⟨s', hs', -⟩ := hinv.step ⟨h0, hlen⟩ hok
  rw [hs']
  rfl

/-- A package, then a bad header, and behind it a block that is refused. -/
theorem handed_prefix_of_harmless_bad_header :
    ∃ s : Receiver, (s.handed = [⟨1, [65]⟩] ∧ s.received.length = 29) ∧
      s.handed <+: frames s.received ∧
      ∀ block, 1 ≤ block.length → block.length ≤ BLOCK_SIZE → s.Harmless block →
        (s.step block).isSome := by
  obtain ⟨s, hs, hP⟩ : ∃ s, ReachableIf Receiver.step Harmless (new 16) s ∧
      (s.handed = [⟨1, [65]⟩] ∧ s.received.length = 29) :=
    exists_reachable_of_run
      [[0xd5, 0xc4, 0xb3, 0xa2, 1, 0, 0, 0, 65], List.replicate 12 0, List.replicate 8 7]
      (by decide +kernel)
  exact ⟨s, hP, handed_prefix_of_harmless 16 hs⟩

/-- A read cache of 16 bytes holds nine bytes of a frame of twelve.  The next
eight bytes are refused, and the bytes behind them end up in the payload. -/
theorem dropped_block_is_spliced :
    ∃ s, Reachable Receiver.step (new 16) s ∧ ¬ s.handed <+: frames s.received :=
  exists_reachable_of_run
    [[0xd5, 0xc4, 0xb3, 0xa2, 4, 0, 0, 0, 65], [66, 67, 68, 0xd5, 0xc4, 0xb3, 0xa2, 4],
      [0, 0, 0, 88]]
    (by decide +kernel)

end Receiver

end CppRpc
