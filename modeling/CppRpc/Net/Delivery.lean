import CppRpc.Lib.Runs
import CppRpc.Net.Socket

/-!
# Frame delivery over a connection

One direction of a connection: the write cache of the sender, the bytes on the
wire, and the read cache of the receiver.  The actions are a `write_package`,
one turn of the write loop, and one `read_socket`, and a run takes them in any
order with any sizes.  `Allowed` is the contract of an action: what the caller
sees to (`write_package` leaves a byte of the sender free, and the receiver
has room for the frame and a block) and what the kernel promises (a socket
takes at most what it is offered and hands out at most what is on the wire).

`Link.Inv` is the one invariant.  The payloads written are those handed over
and those still under way, and the bytes of the receiver, the wire and the
sender, in this order, are the frames of the latter.  `frames_delivered` is the
result, together with the fact that no allowed action runs into undefined
behaviour.
-/

namespace CppRpc

open CData Runs BufferCacheBase

/-- A connection in one direction.  `written` and `handed` are histories: the
payloads of the packages written, and those that `read_package` handed over. -/
structure Link where
  sender : BufferCache
  wire : List UInt8
  receiver : BufferCache
  written : List (List UInt8)
  handed : List Payload

namespace Link

inductive Action
  | writePackage (payload : List UInt8)
  | writeTurn (accepted : Nat)
  | readSocket (arrived : Nat)

/-- Both caches fresh and the wire empty. -/
def new (senderSize receiverSize : Int) : Link :=
  ⟨BufferCacheBase.new senderSize, [], BufferCacheBase.new receiverSize, [], []⟩

/-- What the caller and the kernel see to. -/
def Allowed (s : Link) : Action → Prop
  | .writePackage p =>
      p ≠ [] ∧ s.sender.size + 8 + p.length < s.sender.capacity ∧
        8 + (p.length : Int) + BLOCK_SIZE ≤ s.receiver.capacity
  | .writeTurn k => k ≤ BLOCK_SIZE ∧ (k : Int) ≤ s.sender.size
  | .readSocket n => 1 ≤ n ∧ n ≤ BLOCK_SIZE ∧ n ≤ s.wire.length

instance (s : Link) : DecidablePred s.Allowed
  | .writePackage _ => inferInstanceAs (Decidable (_ ∧ _))
  | .writeTurn _ => inferInstanceAs (Decidable (_ ∧ _))
  | .readSocket _ => inferInstanceAs (Decidable (_ ∧ _))

/-- One action. -/
def step (s : Link) : Action → Option Link
  | .writePackage p =>
      (s.sender.writePackage p p.length).map fun r =>
        { s with sender := r.2, written := if r.1 then s.written ++ [p] else s.written }
  | .writeTurn k =>
      (CppRpc.writeTurn s.sender (bufferCalloc BLOCK_SIZE) k).map fun r =>
        { s with sender := r.2.2, wire := s.wire ++ r.1 }
  | .readSocket n =>
      (CppRpc.readSocket s.receiver (s.wire.take n)).map fun r =>
        { s with
          wire := s.wire.drop n
          receiver := r.2
          handed := s.handed ++ r.1.map Payload.ofBuffer }

/-- The bytes under way, in the order in which they will be read. -/
def bytes (s : Link) : List UInt8 := s.receiver.contents ++ s.wire ++ s.sender.contents

/-- `pending` are the payloads written and not yet handed over. -/
structure Delivers (s : Link) (pending : List (List UInt8)) : Prop where
  prefix_eq : ∃ done, s.written = done ++ pending ∧ s.handed = done.map Payload.ofBytes
  bytes_eq : s.bytes = pending.flatMap encodeFrame

/-- The invariant. -/
structure Inv (s : Link) : Prop where
  sender_wf : s.sender.WF
  receiver_wf : s.receiver.WF
  incomplete : decodeFrame s.receiver.contents = none
  fits : ∀ p ∈ s.written, p.length < 2147483648 ∧
    8 + (p.length : Int) + BLOCK_SIZE ≤ s.receiver.capacity
  delivers : ∃ pending, s.Delivers pending

theorem inv_new (senderSize receiverSize : Int) : (new senderSize receiverSize).Inv := by
  refine ⟨new_wf _, new_wf _, ?_, ?_, [], ⟨[], rfl, rfl⟩, ?_⟩
  · show decodeFrame (BufferCacheBase.new receiverSize).contents = none
    rw [contents_new]
    exact frameCodec.parse_nil
  · intro p hp
    exact absurd hp (List.not_mem_nil)
  · show (BufferCacheBase.new receiverSize).contents ++ [] ++
      (BufferCacheBase.new senderSize).contents = []
    rw [contents_new, contents_new]
    rfl

variable {s : Link}

theorem Inv.writePackage (h : s.Inv) {p : List UInt8} (ha : s.Allowed (.writePackage p)) :
    ∃ s', s.step (.writePackage p) = some s' ∧ s'.Inv := by
  obtain ⟨hp, hroom, hrecv⟩ := ha
  have hcap : s.sender.capacity < 2147483648 := h.sender_wf.capacity_lt
  have hsize := h.sender_wf.size_eq
  obtain ⟨c', hw, w', hc', -⟩ := h.sender_wf.writePackage_eq hp hroom
  obtain ⟨pending, ⟨done, hwritten, hhanded⟩, hbytes⟩ := h.delivers
  have hstep : s.step (.writePackage p) =
      some { s with sender := c', written := s.written ++ [p] } := by
    rw [step, hw, Option.map_some, if_pos rfl]
  refine ⟨_, hstep, w', h.receiver_wf, h.incomplete, ?_, pending ++ [p], ⟨done, ?_, hhanded⟩, ?_⟩
  · intro q hq
    rcases List.mem_append.mp hq with hq | hq
    · exact h.fits q hq
    · obtain rfl := List.mem_singleton.mp hq
      exact ⟨by omega, hrecv⟩
  · show s.written ++ [p] = done ++ (pending ++ [p])
    rw [hwritten, List.append_assoc]
  · show s.receiver.contents ++ s.wire ++ c'.contents = _
    rw [hc', List.flatMap_append, ← hbytes, List.flatMap_singleton, bytes,
      List.append_assoc _ _ (encodeFrame p)]

theorem Inv.writeTurn (h : s.Inv) {k : Nat} (ha : s.Allowed (.writeTurn k)) :
    ∃ s', s.step (.writeTurn k) = some s' ∧ s'.Inv := by
  obtain ⟨hk, hoffered⟩ := ha
  rw [h.sender_wf.size_eq] at hoffered
  obtain ⟨tmp', c', hw, -, w', hc', -⟩ :=
    writeTurn_eq h.sender_wf bufferCalloc_block hk (by omega)
  obtain ⟨pending, hprefix, hbytes⟩ := h.delivers
  have hstep : s.step (.writeTurn k) =
      some { s with sender := c', wire := s.wire ++ s.sender.contents.take k } := by
    rw [step, hw, Option.map_some]
  refine ⟨_, hstep, w', h.receiver_wf, h.incomplete, h.fits, pending, hprefix, ?_⟩
  show s.receiver.contents ++ (s.wire ++ s.sender.contents.take k) ++ c'.contents = _
  rw [hc', ← hbytes, bytes]
  simp only [List.append_assoc, List.take_append_drop]

/-- The read cache of a connection has room for a block beside the part of a
frame that it holds. -/
theorem Inv.room (h : s.Inv) {n : Nat} (hn : n ≤ BLOCK_SIZE) (h0 : 0 < n)
    (hwire : n ≤ s.wire.length) :
    (s.receiver.contents.length + n : Int) < s.receiver.capacity := by
  obtain ⟨pending, ⟨done, hwritten, -⟩, hbytes⟩ := h.delivers
  cases pending with
  | nil =>
    have hlen : s.bytes.length = 0 := by rw [hbytes]; rfl
    rw [bytes, List.length_append, List.length_append] at hlen
    omega
  | cons p rest =>
    have hmem : p ∈ s.written := by
      rw [hwritten]
      exact List.mem_append_right _ (List.mem_cons_self ..)
    obtain ⟨hvalid, hroom⟩ := h.fits p hmem
    have hlt : s.receiver.contents.length < (encodeFrame p).length := by
      rw [bytes, List.append_assoc, List.flatMap_cons] at hbytes
      exact frameCodec.length_lt_of_incomplete hvalid h.incomplete hbytes
    rw [encodeFrame_length] at hlt
    omega

/-- The unread part of a stream of encoded frames has no negative length. -/
theorem not_underflows_of_encoded {xs ts : List UInt8} {pending : List (List UInt8)}
    (hvalid : ∀ p ∈ pending, frameCodec.Valid p) (h : xs ++ ts = pending.flatMap encodeFrame) :
    ¬ Underflows xs := by
  rintro ⟨h8, -, -, hneg⟩
  cases pending with
  | nil =>
    obtain ⟨rfl, -⟩ := List.append_eq_nil_iff.mp (show xs ++ ts = [] from h)
    exact absurd h8 (by decide)
  | cons p rest =>
    have hp : p.length < 2147483648 := hvalid p (List.mem_cons_self ..)
    have hheader : Header.ofBytes xs = ⟨toInt32 (toInt32 MAGIC), toInt32 p.length⟩ := by
      rw [← Header.ofBytes_append h8 ts, h, List.flatMap_cons, encodeFrame, List.append_assoc,
        Header.ofBytes_bytes_append]
    rw [hheader] at hneg
    dsimp only at hneg
    rw [toInt32_eq_self (by omega) (by omega)] at hneg
    omega

theorem Inv.readSocket (h : s.Inv) {n : Nat} (ha : s.Allowed (.readSocket n)) :
    ∃ s', s.step (.readSocket n) = some s' ∧ s'.Inv := by
  obtain ⟨h0, hn, hwire⟩ := ha
  have hblock : (s.wire.take n).length = n := by
    rw [List.length_take]
    omega
  have hroom := h.room hn (by omega) hwire
  obtain ⟨pending, ⟨done, hwritten, hhanded⟩, hbytes⟩ := h.delivers
  have hvalid : ∀ p ∈ pending, frameCodec.Valid p := fun p hp =>
    (h.fits p (by rw [hwritten]; exact List.mem_append_right _ hp)).1
  have hsplit : (s.receiver.contents ++ s.wire.take n) ++ (s.wire.drop n ++ s.sender.contents) =
      pending.flatMap encodeFrame := by
    rw [← hbytes, bytes]
    simp only [List.append_assoc, ← List.append_assoc (s.wire.take n), List.take_append_drop]
  obtain ⟨k, hframes, hrest⟩ := frameCodec.parseAll_of_encoded hvalid hsplit
  have hnone := frameCodec.parse_parseAll_rest (s.receiver.contents ++ s.wire.take n)
  have hu : ¬ Underflows (frameCodec.parseAll (s.receiver.contents ++ s.wire.take n)).2 :=
    not_underflows_of_encoded (fun p hp => hvalid p (List.mem_of_mem_drop hp)) hrest
  obtain ⟨bufs, c', hr, w', hc', hcap', hmap⟩ :=
    readSocket_taken h.receiver_wf (by omega) (by omega) (Or.inl (by rw [hblock]; exact hroom)) hu
  have hstep : s.step (.readSocket n) = some
      { s with
        wire := s.wire.drop n
        receiver := c'
        handed := s.handed ++ bufs.map Payload.ofBuffer } := by
    rw [step, hr, Option.map_some]
  refine ⟨_, hstep, h.sender_wf, w', ?_, ?_, pending.drop k, ⟨done ++ pending.take k, ?_, ?_⟩, ?_⟩
  · show decodeFrame c'.contents = none
    rw [hc']
    exact hnone
  · intro p hp
    rw [hcap']
    exact h.fits p hp
  · rw [List.append_assoc, List.take_append_drop]
    exact hwritten
  · dsimp only
    rw [hhanded, hmap, hframes, List.map_append]
  · show c'.contents ++ s.wire.drop n ++ s.sender.contents = _
    rw [hc', List.append_assoc]
    exact hrest

theorem Inv.step (h : s.Inv) {a : Action} (ha : s.Allowed a) :
    ∃ s', s.step a = some s' ∧ s'.Inv := by
  cases a with
  | writePackage p => exact h.writePackage ha
  | writeTurn k => exact h.writeTurn ha
  | readSocket n => exact h.readSocket ha

/-- Over every run of allowed actions, in any order: the payloads handed over
are the first of those written, the bytes under way are the frames of the
others, and the next allowed action is free of undefined behaviour. -/
theorem frames_delivered (senderSize receiverSize : Int)
    (h : ReachableIf Link.step Allowed (new senderSize receiverSize) s) :
    (∃ pending, s.Delivers pending) ∧ ∀ a, s.Allowed a → (s.step a).isSome := by
  have hrun := h.invariant_enabled (inv_new _ _) fun _ _ hs ha => hs.step ha
  exact ⟨hrun.1.delivers, hrun.2⟩

/-- Two packages, the first of them handed over while the wire still holds a
part of the second. -/
theorem frames_delivered_split_frame :
    ∃ s : Link, (s.written = [[1, 2], [3]] ∧ s.handed = [⟨2, [1, 2]⟩] ∧ s.wire = [0xb3, 0xa2]) ∧
      (∃ pending, s.Delivers pending) ∧ ∀ a, s.Allowed a → (s.step a).isSome := by
  obtain ⟨s, hs, hP⟩ : ∃ s, ReachableIf Link.step Allowed (new 24 2060) s ∧
      (s.written = [[1, 2], [3]] ∧ s.handed = [⟨2, [1, 2]⟩] ∧ s.wire = [0xb3, 0xa2]) :=
    exists_reachable_of_run
      [.writePackage [1, 2], .writePackage [3], .writeTurn 14, .readSocket 6, .readSocket 6]
      (by decide +kernel)
  exact ⟨s, hP, frames_delivered 24 2060 hs⟩

end Link

end CppRpc
