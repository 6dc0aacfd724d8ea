import CppRpc.Lib.Progress
import CppRpc.Net.Delivery

/-!
# What a connection comes to

A connection without new packages: `Carries` are the actions that move bytes,
turns of the write loop whose `write` takes something, and calls of
`read_socket` that find something.  They are cut in any way and come in any
order.

`drained_of_transfers` says that there are only so many of them, that there is
one as long as a payload has not been handed over, and so that in the end all
payloads have been.  Each byte is moved twice, from the sender to the wire and
from there to the receiver, and `toMove` counts these moves.
-/

namespace CppRpc

open CData Runs BufferCacheBase

/-! ## Sizes -/

namespace BufferCacheBase

variable {c : BufferCacheBase}

theorem capacity_write {buf : Buffer} {r : Int × BufferCacheBase} (h : c.write buf = some r) :
    r.2.capacity = c.capacity := by
  unfold write at h
  split at h
  · cases h
    rfl
  · dsimp only at h
    split at h
    · obtain ⟨data, -, rfl⟩ := Option.map_eq_some_iff.mp h
      rfl
    · obtain ⟨data, -, h⟩ := Option.bind_eq_some_iff.mp h
      obtain ⟨data', -, rfl⟩ := Option.map_eq_some_iff.mp h
      rfl

theorem capacity_read {buf : Buffer} {r : Int × Buffer × BufferCacheBase}
    (h : c.read buf = some r) : r.2.2.capacity = c.capacity := by
  unfold read at h
  dsimp only at h
  split at h
  · cases h
    rfl
  · obtain ⟨data, -, rfl⟩ := Option.map_eq_some_iff.mp h
    rfl

theorem capacity_writePackage {data : List UInt8} {len : Int} {r : Bool × BufferCache}
    (h : c.writePackage data len = some r) : r.2.capacity = c.capacity := by
  obtain ⟨r₀, h₀, h⟩ := Option.bind_eq_some_iff.mp h
  split at h
  · cases h
    exact capacity_write h₀
  · obtain ⟨r₁, h₁, rfl⟩ := Option.map_eq_some_iff.mp h
    split <;> exact (capacity_write h₁).trans (capacity_write h₀)

theorem capacity_readPackage {head : Header} {buffer : Buffer}
    {r : Bool × Header × Buffer × BufferCache} (h : c.readPackage head buffer = some r) :
    r.2.2.2.capacity = c.capacity := by
  unfold readPackage at h
  split at h
  · cases h
    rfl
  · obtain ⟨r₀, -, h⟩ := Option.bind_eq_some_iff.mp h
    dsimp only at h
    split at h
    · cases h
      rfl
    · split at h
      · cases h
        rfl
      · obtain ⟨r₁, h₁, h⟩ := Option.bind_eq_some_iff.mp h
        obtain ⟨r₂, h₂, rfl⟩ := Option.map_eq_some_iff.mp h
        exact (capacity_read h₂).trans (capacity_read h₁)

end BufferCacheBase

theorem capacity_readPackages {fuel : Nat} {c : BufferCache} {head : Header} {buffer : Buffer}
    {r : List Buffer × BufferCache} (h : readPackages fuel c head buffer = some r) :
    r.2.capacity = c.capacity := by
  induction fuel generalizing c head buffer r with
  | zero =>
    cases h
    rfl
  | succ fuel ih =>
    rw [readPackages] at h
    obtain ⟨r₀, h₀, h⟩ := Option.bind_eq_some_iff.mp h
    split at h
    · obtain ⟨t, ht, rfl⟩ := Option.map_eq_some_iff.mp h
      exact (ih ht).trans (capacity_readPackage h₀)
    · cases h
      exact capacity_readPackage h₀

theorem capacity_readSocket {c : BufferCache} {block : List UInt8} {r : List Buffer × BufferCache}
    (h : readSocket c block = some r) : r.2.capacity = c.capacity := by
  unfold readSocket at h
  obtain ⟨data, -, h⟩ := Option.bind_eq_some_iff.mp h
  obtain ⟨r₀, h₀, h⟩ := Option.bind_eq_some_iff.mp h
  exact (capacity_readPackages h).trans (capacity_write h₀)

theorem capacity_writeTurn {c : BufferCache} {tmp : Buffer} {k : Int}
    {r : List UInt8 × Buffer × BufferCache} (h : writeTurn c tmp k = some r) :
    r.2.2.capacity = c.capacity := by
  obtain ⟨tmp', -, h⟩ := Option.bind_eq_some_iff.mp h
  obtain ⟨r₀, h₀, rfl⟩ := Option.map_eq_some_iff.mp h
  unfold takeTurn at h₀
  dsimp only at h₀
  split at h₀
  · obtain ⟨r₁, h₁, rfl⟩ := Option.map_eq_some_iff.mp h₀
    exact capacity_read h₁
  · cases h₀
    rfl

namespace Link

/-- The caches keep their sizes. -/
theorem capacity_of_step {l l' : Link} {a : Action} (h : l.step a = some l') :
    l'.sender.capacity = l.sender.capacity ∧ l'.receiver.capacity = l.receiver.capacity := by
  cases a with
  | writePackage payload =>
    obtain ⟨r, hr, rfl⟩ := Option.map_eq_some_iff.mp h
    exact ⟨capacity_writePackage hr, rfl⟩
  | writeTurn k =>
    obtain ⟨r, hr, rfl⟩ := Option.map_eq_some_iff.mp h
    exact ⟨capacity_writeTurn hr, rfl⟩
  | readSocket n =>
    obtain ⟨r, hr, rfl⟩ := Option.map_eq_some_iff.mp h
    exact ⟨rfl, capacity_readSocket hr⟩

/-! ## The histories -/

section Histories

variable {l l' : Link}

/-- What a turn of the write loop, or a `read_socket`, does to the histories. -/
theorem histories_of_step {a : Action} (h : l.step a = some l')
    (ha : ∀ payload, a ≠ .writePackage payload) :
    l'.written = l.written ∧ ∃ more, l'.handed = l.handed ++ more := by
  cases a with
  | writePackage payload => exact absurd rfl (ha payload)
  | writeTurn k =>
    obtain ⟨r, -, rfl⟩ := Option.map_eq_some_iff.mp h
    exact ⟨rfl, [], (List.append_nil _).symm⟩
  | readSocket n =>
    obtain ⟨r, -, rfl⟩ := Option.map_eq_some_iff.mp h
    exact ⟨rfl, _, rfl⟩

/-- The payloads handed over are the first of those written. -/
theorem Inv.written_eq (h : l.Inv) : ∃ pending, l.bytes = pending.flatMap encodeFrame ∧
    l.written = l.handed.map Payload.bytes ++ pending := by
  obtain ⟨pending, ⟨done, hwritten, hhanded⟩, hbytes⟩ := h.delivers
  refine ⟨pending, hbytes, ?_⟩
  have hdone : (done.map Payload.ofBytes).map Payload.bytes = done := by
    rw [List.map_map]
    exact List.map_id done
  rw [hwritten, hhanded, hdone]

theorem Inv.mem_written (h : l.Inv) {x : Payload} (hx : x ∈ l.handed) : x.bytes ∈ l.written := by
  obtain ⟨pending, -, hwritten⟩ := h.written_eq
  rw [hwritten]
  exact List.mem_append_left _ (List.mem_map_of_mem hx)

/-- Nothing is under way exactly when all payloads have been handed over. -/
theorem Inv.bytes_eq_nil_iff (h : l.Inv) :
    l.bytes = [] ↔ l.written = l.handed.map Payload.bytes := by
  obtain ⟨pending, hbytes, hwritten⟩ := h.written_eq
  rw [hwritten, List.append_right_eq_self, hbytes]
  constructor
  · intro hnil
    cases pending with
    | nil => rfl
    | cons payload rest =>
      have hlen := congrArg List.length hnil
      rw [List.flatMap_cons, List.length_append, encodeFrame_length, List.length_nil] at hlen
      omega
  · rintro rfl
    rfl

end Histories

/-! ## Transfers -/

/-- The action moves bytes. -/
def Carries (s : Link) (a : Action) : Prop :=
  s.Allowed a ∧
    match a with
    | .writePackage _ => False
    | .writeTurn k => 0 < k
    | .readSocket _ => True

instance (s : Link) : DecidablePred s.Carries
  | .writePackage _ => inferInstanceAs (Decidable (_ ∧ False))
  | .writeTurn k => inferInstanceAs (Decidable (_ ∧ 0 < k))
  | .readSocket _ => inferInstanceAs (Decidable (_ ∧ True))

/-- The moves of a byte that are still to come. -/
def toMove (s : Link) : Nat := 2 * s.sender.contents.length + s.wire.length

variable {s s' : Link}

theorem Inv.transfer (h : s.Inv) {a : Action} (ha : s.Carries a) (hs : s.step a = some s') :
    s'.Inv ∧ s'.toMove < s.toMove := by
  obtain ⟨hallowed, hmoves⟩ := ha
  have hinv : s'.Inv := by
    obtain ⟨s₁, hs₁, hinv⟩ := h.step hallowed
    cases hs₁.symm.trans hs
    exact hinv
  refine ⟨hinv, ?_⟩
  cases a with
  | writePackage payload => exact hmoves.elim
  | writeTurn k =>
    have hpos : 0 < k := hmoves
    obtain ⟨hk, hoffered⟩ := hallowed
    rw [h.sender_wf.size_eq] at hoffered
    obtain ⟨tmp', c', hw, -, -, hc', -⟩ :=
      writeTurn_eq h.sender_wf bufferCalloc_block hk (by omega)
    obtain ⟨r, hr, rfl⟩ := Option.map_eq_some_iff.mp hs
    cases hw.symm.trans hr
    simp only [toMove, hc', List.length_drop, List.length_append, List.length_take]
    omega
  | readSocket n =>
    obtain ⟨hpos, -, hwire⟩ := hallowed
    obtain ⟨r, -, rfl⟩ := Option.map_eq_some_iff.mp hs
    simp only [toMove, List.length_drop]
    omega

/-- There is a transfer as long as a byte has to be moved. -/
theorem Inv.exists_carries_iff (h : s.Inv) : (∃ a, s.Carries a) ↔ s.toMove ≠ 0 := by
  have hsize := h.sender_wf.size_eq
  constructor
  · rintro ⟨a, hallowed, hmoves⟩
    cases a with
    | writePackage payload => exact hmoves.elim
    | writeTurn k =>
      have hpos : 0 < k := hmoves
      obtain ⟨-, hoffered⟩ := hallowed
      unfold toMove
      omega
    | readSocket n =>
      obtain ⟨hpos, -, hwire⟩ := hallowed
      unfold toMove
      omega
  · intro hmove
    have hblock : BLOCK_SIZE = 2048 := rfl
    by_cases hwire : s.wire.length = 0
    · refine ⟨.writeTurn 1, ⟨by omega, ?_⟩, Nat.one_pos⟩
      unfold toMove at hmove
      omega
    · exact ⟨.readSocket 1, ⟨Nat.le_refl 1, by omega, by omega⟩, trivial⟩

/-- A receiver that has got everything has handed everything over. -/
theorem Inv.toMove_eq_zero_iff (h : s.Inv) :
    s.toMove = 0 ↔ s.written = s.handed.map Payload.bytes := by
  rw [← h.bytes_eq_nil_iff]
  constructor
  · intro hzero
    unfold toMove at hzero
    have hsender : s.sender.contents = [] := List.eq_nil_of_length_eq_zero (by omega)
    have hwire : s.wire = [] := List.eq_nil_of_length_eq_zero (by omega)
    obtain ⟨pending, ⟨done, hwritten, -⟩, hbytes⟩ := h.delivers
    rw [hbytes]
    cases pending with
    | nil => rfl
    | cons payload rest =>
      have hvalid : payload.length < 2147483648 :=
        (h.fits payload (by rw [hwritten]; exact List.mem_append_right _ (List.mem_cons_self ..))).1
      have hreceived : s.receiver.contents = encodeFrame payload ++ rest.flatMap encodeFrame := by
        rw [← List.flatMap_cons, ← hbytes, bytes, hsender, hwire, List.append_nil, List.append_nil]
      have hincomplete := h.incomplete
      rw [hreceived, decodeFrame_encodeFrame _ hvalid] at hincomplete
      cases hincomplete
  · intro hbytes
    have hlen := congrArg List.length hbytes
    simp only [bytes, List.length_append, List.length_nil] at hlen
    unfold toMove
    omega

/-- From every state of every run of allowed actions: without new packages, and
however the bytes are cut, at most `toMove` transfers follow.  There is a next one
exactly as long as a payload has not been handed over. -/
theorem drained_of_transfers (senderSize receiverSize : Int)
    (h : ReachableIf Link.step Allowed (new senderSize receiverSize) s) {as : List Action}
    (hr : runIf Link.step Carries s as = some s') :
    as.length ≤ 2 * s.sender.contents.length + s.wire.length ∧ s'.written = s.written ∧
      ((∃ a, s'.Carries a) ↔ s'.written ≠ s'.handed.map Payload.bytes) := by
  have hinv : s.Inv :=
    (h.invariant_enabled (inv_new _ _) fun _ _ hs ha => hs.step ha).1
  have hreach : ReachableIf Link.step Carries s s' := .runIf .init hr
  have hkept : s'.Inv ∧ s'.written = s.written := by
    refine ReachableIf.invariant (P := fun t => t.Inv ∧ t.written = s.written) ⟨hinv, rfl⟩
      (fun t a t' ht ha hs => ?_) hreach
    refine ⟨(ht.1.transfer ha hs).1, ?_⟩
    rw [← ht.2]
    apply (histories_of_step hs _).1
    rintro payload rfl
    exact ha.2
  refine ⟨?_, hkept.2, ?_⟩
  · exact length_le_of_rank Link.Inv toMove (fun _ _ _ ht ha hs => ht.transfer ha hs) hinv hr
  · rw [hkept.1.exists_carries_iff, Ne, hkept.1.toMove_eq_zero_iff]

/-- Two packages, one cut on the wire and one still in the cache, and the four
transfers that bring them over. -/
theorem drained_of_transfers_two_packages : ∃ s s' : Link,
    (s.written = [[1, 2], [3]] ∧ s.handed = [] ∧
      s'.handed = [⟨2, [1, 2]⟩, ⟨1, [3]⟩]) ∧
      4 ≤ 2 * s.sender.contents.length + s.wire.length ∧ s'.written = s.written ∧
      ((∃ a, s'.Carries a) ↔ s'.written ≠ s'.handed.map Payload.bytes) := by
  obtain ⟨s, hs, s', hr, hP⟩ : ∃ s, ReachableIf Link.step Allowed (new 24 2060) s ∧
      ∃ s' ∈ runIf Link.step Carries s
          [.readSocket 3, .writeTurn 15, .readSocket 15, .readSocket 1],
        s.written = [[1, 2], [3]] ∧ s.handed = [] ∧ s'.handed = [⟨2, [1, 2]⟩, ⟨1, [3]⟩] :=
    exists_reachable_of_run [.writePackage [1, 2], .writePackage [3], .writeTurn 4]
      (by decide +kernel)
  exact ⟨s, s', hP, drained_of_transfers 24 2060 hs hr⟩

end Link

end CppRpc
