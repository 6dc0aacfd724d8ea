import CppRpc.Lib.Runs
import CppRpc.Net.Socket
import CppRpc.Util.PackageWrite

/-!
# The write pump

The loop of `write_socket` with producers beside it.  A turn of the loop is the
look at the cache, the call of `write(fd, ..)`, and the removal of what the
socket took.  The result of `write` is any number from `-1` to the length that
was offered.

The removal and a `write_package` take the lock of the cache, so neither falls
into the other.  `have_a_look` takes none: `LookPoint` is where the thread
stands in it, and a producer may move `m_tail` between any two of its reads,
also by the header of a package whose payload is still to come.  The bytes that
are copied lie in front of those that a producer writes, so the copy is one step.

`InStep` is the property: what the pump has removed is what the socket took,
and with the contents it is what the producers handed in.  `TurnExact` says it
of the turn under way: the look ahead stays inside its blocks, and the removal
ahead is defined and takes off the cache the bytes that went out.

Two things go wrong.  The result of `write` is kept in a `size_t`, so the `-1`
of an error passes the test `len > 0`, and the removal is of `-1` bytes; that
goes well on an empty cache only (`ErrorOnEmpty`).  And `have_a_look` compares
its length with one `size()` and assigns the next one, each from two reads of
`m_tail`: the second may be above the block, or negative (`LookFits`).
`pump_in_step` is the result, under these conditions and the one that makes
`write_package` all or nothing (`Whole`).
-/

namespace CppRpc

open CData Runs BufferCacheBase

/-- Where the thread in `write_socket` is. -/
inductive PumpStage
  | out
  | looking (point : LookPoint) (tmp : Buffer)
  | writing (tmp : Buffer)
  | taking (tmp : Buffer) (result : Int)

/-- The write cache and the thread that pumps it.  `producer` has the lock: it
is in `write_package`, with the header in the cache and before the payload.
`accepted`, `wire` and `removed` are histories: the bytes of the packages that
`write_package` answered `true` for, those that the socket took, and those that
the pump took off the cache. -/
structure WritePump where
  cache : BufferCache
  producer : Option (List UInt8 × Nat)
  stage : PumpStage
  accepted : List UInt8
  wire : List UInt8
  removed : List UInt8

namespace WritePump

inductive Action
  /-- The first write of a `write_package`. -/
  | writeHeader (buffer : List UInt8) (len : Nat)
  | writePayload
  | enter
  | look
  | socketWrite (result : Int)
  | take

/-- A cache that nobody pumps yet. -/
def init (cache : BufferCache) : WritePump := ⟨cache, none, .out, cache.contents, [], []⟩

/-- `tmp` at the head of a turn, and the start of `have_a_look`. -/
def turn (tmp : Buffer) : PumpStage := .looking .compare { tmp with length := BLOCK_SIZE }

/-- One action.  `len` is an `unsigned int`, and a producer has the bytes that
it offers. -/
def step (s : WritePump) : Action → Option WritePump
  | .writeHeader buffer len =>
      if s.producer = none ∧ len < 4294967296 ∧ len ≤ buffer.length then
        (s.cache.write ⟨sizeofHeader, sizeofHeader, packageHeader len⟩).map fun (written, cache) =>
          { s with cache, producer := if written = 0 then none else some (buffer, len) }
      else none
  | .writePayload =>
      s.producer.bind fun (buffer, len) =>
        (s.cache.write ⟨toInt32 len, toInt32 len, buffer⟩).map fun (written, cache) =>
          { s with
            cache
            producer := none
            accepted :=
              if written = 0 then s.accepted
              else s.accepted ++ (packageHeader len ++ buffer.take len) }
  | .enter =>
      match s.stage with
      | .out => some { s with stage := turn (bufferCalloc BLOCK_SIZE) }
      | _ => none
  | .look =>
      match s.stage with
      | .looking point tmp =>
          (s.cache.lookStep tmp point).map fun r =>
            { s with stage := r.1.elim (.writing r.2) fun point => .looking point r.2 }
      | _ => none
  | .socketWrite result =>
      match s.stage with
      | .writing tmp =>
          if -1 ≤ result ∧ result ≤ tmp.length then
            some { s with
              stage := .taking tmp result
              wire := s.wire ++ tmp.data.take result.toNat }
          else none
      | _ => none
  | .take =>
      match s.stage with
      | .taking tmp result =>
          if s.producer = none then
            (takeTurn s.cache tmp (toSizeT result)).map fun r =>
              { s with
                cache := r.2
                stage := if toSizeT result ≠ BLOCK_SIZE then .out else turn r.1
                removed := s.removed ++
                  s.cache.contents.take (s.cache.contents.length - r.2.contents.length) }
          else none
      | _ => none

/-- The bytes that the socket took and the pump has still to remove. -/
def pending (s : WritePump) : Nat :=
  match s.stage with
  | .taking _ result => result.toNat
  | _ => 0

/-- What a `write_package` under way has put into the cache: its header, or
nothing, when the header has emptied the ring. -/
def UnderWay (s : WritePump) (bytes : List UInt8) : Prop :=
  bytes = [] ∨ ∃ x ∈ s.producer, bytes = packageHeader x.2

/-- The property.  Between two turns nothing is pending: the wire has what was
removed, and the wire and the contents are what the producers handed in. -/
structure InStep (s : WritePump) : Prop where
  head_nonneg : 0 ≤ s.cache.head
  head_le : s.cache.head ≤ s.cache.capacity
  wire_eq : s.wire = s.removed ++ s.cache.contents.take s.pending
  accepted_eq : ∃ bytes, s.UnderWay bytes ∧ s.removed ++ s.cache.contents = s.accepted ++ bytes

/-- The rest of the turn under way is defined and removes what the socket
took. -/
def TurnExact (s : WritePump) : Prop :=
  match s.stage with
  | .looking point tmp => (s.cache.finishLook 6 point tmp).isSome
  | .taking tmp result =>
      ∃ r ∈ takeTurn s.cache tmp (toSizeT result),
        r.2.contents = s.cache.contents.drop result.toNat
  | _ => True

instance (s : WritePump) : Decidable s.TurnExact := by
  unfold TurnExact
  split <;> infer_instance

/-- The condition on the removal: when `write` has failed, there is nothing in
the cache. -/
def ErrorOnEmpty (s : WritePump) : Prop :=
  match s.stage with
  | .taking _ result => result = -1 → s.cache.isEmpty = true
  | _ => True

/-- The condition on the look: where `buf.length` gets a new `size()`, the cache
has not grown above the block, and `m_tail` has not gone round the ring since the
test in it. -/
def LookFits (s : WritePump) : Prop :=
  match s.stage with
  | .looking (.compareSize unwrapped) _ =>
      (unwrapped = true → s.cache.head ≤ s.cache.tail) ∨ s.cache.size ≤ BLOCK_SIZE
  | .looking .assign _ => s.cache.size ≤ BLOCK_SIZE
  | .looking (.assignSize unwrapped) _ =>
      (unwrapped = true → s.cache.head ≤ s.cache.tail) ∧ s.cache.size ≤ BLOCK_SIZE
  | _ => True

instance (s : WritePump) : Decidable s.ErrorOnEmpty := by
  unfold ErrorOnEmpty
  split <;> infer_instance

instance (s : WritePump) : Decidable s.LookFits := by
  unfold LookFits
  split <;> infer_instance

/-- The condition on an action. -/
def Allowed (s : WritePump) : Action → Prop
  | .writeHeader _ len => s.cache.Whole (toInt32 len)
  | .look => s.LookFits
  | .take => s.ErrorOnEmpty
  | _ => True

instance (s : WritePump) : DecidablePred s.Allowed
  | .writeHeader _ _ => inferInstanceAs (Decidable (Whole _ _))
  | .look => inferInstanceAs (Decidable (LookFits _))
  | .take => inferInstanceAs (Decidable (ErrorOnEmpty _))
  | .writePayload | .enter | .socketWrite _ => inferInstanceAs (Decidable True)

/-! ## What a producer does to the ring -/

/-- The ring has taken bytes at its end, or none. -/
structure Grows (c c' : BufferCache) : Prop where
  wf : c'.WF
  capacity_eq : c'.capacity = c.capacity
  head_eq : c'.head = c.head
  prefix_contents : c.contents <+: c'.contents

/-- A tail in front of the head stays there. -/
theorem Grows.tail_lt_head {c c' : BufferCache} (h : Grows c c') (w : c.WF)
    (htail : c.tail < c.head) : c'.tail < c'.head := by
  have hsize := w.size_eq
  have hsize' := h.wf.size_eq
  have hcap : c'.buffer.capacity = c.buffer.capacity := h.capacity_eq
  have hlength := h.prefix_contents.length_le
  have hpos := w.tail_pos htail
  have htail' := h.wf.tail_le
  have hhead := h.head_eq
  have hbounds := w.head_le
  have hlt := w.capacity_lt
  by_contra hnot
  unfold size at hsize hsize'
  rw [if_neg (by omega), toInt32_eq_self (by omega) (by omega)] at hsize
  rw [if_pos (by omega)] at hsize'
  omega

/-- What is to come of a `write_package` whose header is in the ring: the whole
payload, behind the header, or nothing, where the header emptied the ring. -/
def PayloadCase (c : BufferCache) (len : Nat) (bytes : List UInt8) : Prop :=
  bytes = packageHeader len ∧ 0 < toInt32 len ∧
      (c.contents.length + toInt32 len < c.capacity ∨
        c.contents.length + toInt32 len = c.capacity ∧ c.head = 0) ∨
    bytes = [] ∧ (toInt32 len ≤ 0 ∨ c.capacity < c.contents.length + toInt32 len)

/-- The first write of a `write_package` that is all or nothing. -/
theorem header_cases {c : BufferCache} (w : c.WF) {len : Nat} (hwhole : c.Whole (toInt32 len))
    {r : Int × BufferCache}
    (hr : c.write ⟨sizeofHeader, sizeofHeader, packageHeader len⟩ = some r) :
    r = (0, c) ∨ r.1 ≠ 0 ∧ Grows c r.2 ∧
      ∃ bytes, r.2.contents = c.contents ++ bytes ∧ PayloadCase r.2 len bytes := by
  have hsize := w.size_eq
  have hheader : (packageHeader len).length = 8 := by rw [packageHeader, Header.bytes_length]
  have hcase := w.write_cases sizeofHeader (show (8 : Int) ≤ (packageHeader len).length by omega)
  change WriteCase c 8 (packageHeader len) (c.write ⟨sizeofHeader, sizeofHeader, _⟩) at hcase
  rw [hr] at hcase
  cases hcase with
  | rejected => exact Or.inl rfl
  | appended c' _ hfit w' hc' hcap hhead =>
    have hbytes : c'.contents = c.contents ++ packageHeader len := by
      rw [hc', List.take_of_length_le (by rw [hheader]; decide)]
    have hlength := congrArg List.length hbytes
    rw [List.length_append, hheader] at hlength
    refine Or.inr ⟨by simp, ⟨w', hcap, hhead, hbytes ▸ List.prefix_append _ _⟩, _, hbytes,
      Or.inl ⟨rfl, ?_⟩⟩
    dsimp only
    rcases hwhole with h | ⟨hpos, h⟩ | h
    · omega
    · exact ⟨hpos, by omega⟩
    · omega
  | emptied c' _ hfill hhead _ w' hc' hcap hhead' =>
    have hnil : c.contents = [] := by
      apply List.eq_nil_of_length_eq_zero
      rcases hwhole with h | ⟨hpos, h⟩ | h <;> omega
    refine Or.inr ⟨by simp, ⟨w', hcap, hhead', by rw [hnil]; exact List.nil_prefix⟩, [], ?_,
      Or.inr ⟨rfl, ?_⟩⟩
    · rw [hc', hnil]
      rfl
    · dsimp only
      rw [hc', List.length_nil]
      rcases hwhole with h | ⟨hpos, h⟩ | h <;> omega

/-- Its second write. -/
theorem payload_cases_of_case {c : BufferCache} (w : c.WF) {buffer bytes : List UInt8} {len : Nat}
    (hlen : len < 4294967296) (hbuf : len ≤ buffer.length) (hcase : PayloadCase c len bytes)
    {r : Int × BufferCache} (hr : c.write ⟨toInt32 len, toInt32 len, buffer⟩ = some r) :
    Grows c r.2 ∧ ∃ more, r.2.contents = c.contents ++ more ∧
      bytes ++ more = if r.1 = 0 then [] else packageHeader len ++ buffer.take len := by
  rcases hcase with ⟨rfl, hpos, hroom⟩ | ⟨rfl, hrefused⟩
  · have hnat := toInt32_toNat hlen hpos
    have hint : toInt32 len = (len : Int) := by omega
    rw [hint] at hr hroom
    obtain ⟨c', hw, w', hc', hcap, hhead⟩ := w.write_eq len (by omega) hbuf hroom
    cases hw.symm.trans hr
    refine ⟨⟨w', hcap, hhead, hc' ▸ List.prefix_append _ _⟩, _, hc', ?_⟩
    rw [if_neg (by dsimp only; omega)]
  · have hrejected : c.write ⟨toInt32 len, toInt32 len, buffer⟩ = some (0, c) := by
      apply write_rejected
      rw [w.size_eq]
      dsimp only
      omega
    cases hrejected.symm.trans hr
    exact ⟨⟨w, rfl, rfl, List.prefix_refl _⟩, [], (List.append_nil _).symm, rfl⟩

/-! ## What `have_a_look` does -/

/-- What a thread in `have_a_look` knows.  The test that chose the second
`return` of a `size()` still holds; the other one need not. -/
def PointFits (c : BufferCache) (tmp : Buffer) : LookPoint → Prop
  | .compare | .assign => tmp.length = BLOCK_SIZE
  | .compareSize unwrapped => tmp.length = BLOCK_SIZE ∧ (unwrapped = false → c.tail < c.head)
  | .assignSize unwrapped => unwrapped = false → c.tail < c.head
  | .test | .copy => 0 ≤ tmp.length ∧ tmp.length ≤ BLOCK_SIZE ∧ tmp.length ≤ c.contents.length

theorem sizeReturn_of_iff {c : BufferCache} (w : c.WF) {unwrapped : Bool}
    (h : unwrapped = true ↔ c.head ≤ c.tail) : c.sizeReturn unwrapped = c.contents.length := by
  rw [← w.size_eq, size_eq_sizeReturn]
  congr 1
  rw [Bool.eq_iff_iff, decide_eq_true_eq]
  exact h

/-- The `return` behind a test that no longer holds is negative. -/
theorem sizeReturn_neg {c : BufferCache} (h : c.tail < c.head) : c.sizeReturn true < 0 := by
  show c.tail - c.head < 0
  omega

/-- The state in which a test of `size()` gives its answer. -/
theorem unwrapped_iff {c : BufferCache} {unwrapped : Bool}
    (htrue : unwrapped = true → c.head ≤ c.tail) (hfalse : unwrapped = false → c.tail < c.head) :
    unwrapped = true ↔ c.head ≤ c.tail := by
  refine ⟨htrue, fun hle => ?_⟩
  cases unwrapped with
  | true => rfl
  | false =>
    have := hfalse rfl
    omega

theorem finishLook_test_isSome {c : BufferCache} (w : c.WF) {tmp : Buffer} (fuel : Nat)
    (hdata : tmp.data.length = BLOCK_SIZE) (h : PointFits c tmp .test) :
    (c.finishLook (fuel + 2) .test tmp).isSome := by
  obtain ⟨hlow, hblock, hlen⟩ := h
  rw [finishLook_test, w.copyOut_of_le hlow hlen (by omega)]
  split_ifs <;> rfl

/-- A `size()` that is no length for the block makes the copy undefined. -/
theorem finishLook_test_eq_none {c : BufferCache} (w : c.WF) {tmp : Buffer} (fuel : Nat)
    (hdata : tmp.data.length = BLOCK_SIZE) (hne : c.contents ≠ [])
    (h : tmp.length < 0 ∨ BLOCK_SIZE < tmp.length) : c.finishLook (fuel + 2) .test tmp = none := by
  have hempty : ¬ c.isEmpty = true := fun he => hne (w.isEmpty_iff.mp he)
  have hcopy : c.copyOut tmp = none := by
    rcases h with h | h
    · exact w.copyOut_neg h
    · exact w.copyOut_long (by omega)
  rw [finishLook_test, if_neg hempty, hcopy]
  rfl

theorem contents_ne_nil_of_tail_lt {c : BufferCache} (w : c.WF) (h : c.tail < c.head) :
    c.contents ≠ [] := by
  intro hnil
  have hempty := w.isEmpty_iff.mpr hnil
  unfold isEmpty at hempty
  have := beq_iff_eq.mp hempty
  omega

/-- From the second `return` of `size()` on, the look is defined exactly under
the condition. -/
theorem finishLook_assignSize_iff {c : BufferCache} (w : c.WF) {tmp : Buffer} (fuel : Nat)
    (hdata : tmp.data.length = BLOCK_SIZE) {unwrapped : Bool}
    (hfalse : unwrapped = false → c.tail < c.head) :
    (c.finishLook (fuel + 3) (.assignSize unwrapped) tmp).isSome ↔
      (unwrapped = true → c.head ≤ c.tail) ∧ c.size ≤ BLOCK_SIZE := by
  show (c.finishLook (fuel + 2) .test { tmp with length := c.sizeReturn unwrapped }).isSome ↔ _
  rw [w.size_eq]
  by_cases htrue : unwrapped = true → c.head ≤ c.tail
  · have hsize := sizeReturn_of_iff w (unwrapped_iff htrue hfalse)
    by_cases hfit : (c.contents.length : Int) ≤ BLOCK_SIZE
    · exact iff_of_true (finishLook_test_isSome w fuel hdata
        ⟨by dsimp only; omega, by dsimp only; omega, by dsimp only; omega⟩) ⟨htrue, hfit⟩
    · have hne : c.contents ≠ [] := by
        rintro hnil
        rw [hnil] at hfit
        exact hfit (by decide)
      have hnone : c.finishLook (fuel + 2) .test { tmp with length := c.sizeReturn unwrapped } =
          none := finishLook_test_eq_none w fuel hdata hne (Or.inr (by dsimp only; omega))
      rw [hnone]
      exact iff_of_false Bool.false_ne_true fun h => hfit h.2
  · obtain ⟨rfl, hlt⟩ := Classical.not_imp.mp htrue
    have hlt' : c.tail < c.head := by omega
    have hnone : c.finishLook (fuel + 2) .test { tmp with length := c.sizeReturn true } = none :=
      finishLook_test_eq_none w fuel hdata (contents_ne_nil_of_tail_lt w hlt')
        (Or.inl (sizeReturn_neg hlt'))
    rw [hnone]
    exact iff_of_false Bool.false_ne_true fun h => htrue h.1

theorem finishLook_assign_iff {c : BufferCache} (w : c.WF) {tmp : Buffer} (fuel : Nat)
    (hdata : tmp.data.length = BLOCK_SIZE) :
    (c.finishLook (fuel + 4) .assign tmp).isSome ↔ c.size ≤ BLOCK_SIZE := by
  show (c.finishLook (fuel + 3) (.assignSize (c.head ≤ c.tail)) tmp).isSome ↔ _
  rw [finishLook_assignSize_iff w fuel hdata
    fun h => Int.not_le.mp (of_decide_eq_false h)]
  exact and_iff_right of_decide_eq_true

theorem finishLook_compareSize_iff {c : BufferCache} (w : c.WF) {tmp : Buffer} (fuel : Nat)
    (hdata : tmp.data.length = BLOCK_SIZE) {unwrapped : Bool}
    (h : PointFits c tmp (.compareSize unwrapped)) :
    (c.finishLook (fuel + 5) (.compareSize unwrapped) tmp).isSome ↔
      (unwrapped = true → c.head ≤ c.tail) ∨ c.size ≤ BLOCK_SIZE := by
  obtain ⟨hlength, hfalse⟩ := h
  show (c.finishLook (fuel + 4)
    (if tmp.length > c.sizeReturn unwrapped then .assign else .test) tmp).isSome ↔ _
  by_cases htrue : unwrapped = true → c.head ≤ c.tail
  · have hsize := sizeReturn_of_iff w (unwrapped_iff htrue hfalse)
    refine iff_of_true ?_ (Or.inl htrue)
    split_ifs with hgreater
    · rw [finishLook_assign_iff w fuel hdata, w.size_eq]
      omega
    · exact finishLook_test_isSome w (fuel + 2) hdata ⟨by omega, by omega, by omega⟩
  · obtain ⟨rfl, hlt⟩ := Classical.not_imp.mp htrue
    have hneg := sizeReturn_neg (show c.tail < c.head by omega)
    rw [if_pos (by rw [hlength]; unfold BLOCK_SIZE; omega), finishLook_assign_iff w fuel hdata,
      or_iff_right htrue]

/-! ## The invariant -/

/-- What `tmp` has to do with the contents. -/
def StageFits (c : BufferCache) : PumpStage → Prop
  | .out => True
  | .looking point tmp => tmp.data.length = BLOCK_SIZE ∧ PointFits c tmp point
  | .writing tmp =>
      tmp.data.length = BLOCK_SIZE ∧ tmp.length ≤ BLOCK_SIZE ∧
        tmp.length ≤ c.contents.length ∧
        ∀ k : Nat, k ≤ tmp.length → tmp.data.take k = c.contents.take k
  | .taking tmp result =>
      tmp.data.length = BLOCK_SIZE ∧ -1 ≤ result ∧ result ≤ BLOCK_SIZE ∧
        result ≤ c.contents.length

theorem stageFits_turn (c : BufferCache) {tmp : Buffer} (h : tmp.data.length = BLOCK_SIZE) :
    StageFits c (turn tmp) := ⟨h, rfl⟩

/-- Producers append, and what the pump knows stays true. -/
theorem Grows.stageFits {c c' : BufferCache} (hgrow : Grows c c') (w : c.WF) {stage : PumpStage}
    (h : StageFits c stage) : StageFits c' stage := by
  have hlength := hgrow.prefix_contents.length_le
  cases stage with
  | out => trivial
  | looking point tmp =>
    refine ⟨h.1, ?_⟩
    have hpoint := h.2
    cases point with
    | compare | assign => exact hpoint
    | compareSize unwrapped =>
      exact ⟨hpoint.1, fun hfalse => hgrow.tail_lt_head w (hpoint.2 hfalse)⟩
    | assignSize unwrapped => exact fun hfalse => hgrow.tail_lt_head w (hpoint hfalse)
    | test | copy => exact ⟨hpoint.1, hpoint.2.1, by have := hpoint.2.2; omega⟩
  | writing tmp =>
    obtain ⟨hdata, hblock, hlen, hfront⟩ := h
    obtain ⟨ys, hys⟩ := hgrow.prefix_contents
    refine ⟨hdata, hblock, by omega, fun k hk => ?_⟩
    rw [hfront k hk, ← hys, List.take_append_of_le_length (by omega)]
  | taking tmp result =>
    obtain ⟨hdata, hlow, hblock, hlen⟩ := h
    exact ⟨hdata, hlow, hblock, by omega⟩

/-- The bytes of the package under way, and what is to come of it. -/
structure ProducerFits (s : WritePump) (bytes : List UInt8) : Prop where
  none : s.producer = none → bytes = []
  some : ∀ x ∈ s.producer, x.2 < 4294967296 ∧ x.2 ≤ x.1.length ∧ PayloadCase s.cache x.2 bytes
  accepted_eq : s.removed ++ s.cache.contents = s.accepted ++ bytes

/-- The invariant. -/
structure Inv (s : WritePump) : Prop where
  wf : s.cache.WF
  fits : StageFits s.cache s.stage
  wire_eq : s.wire = s.removed ++ s.cache.contents.take s.pending
  producer : ∃ bytes, s.ProducerFits bytes

variable {s s' : WritePump}

theorem ProducerFits.underWay {bytes : List UInt8} (h : s.ProducerFits bytes) :
    s.UnderWay bytes := by
  cases hproducer : s.producer with
  | none => exact Or.inl (h.none hproducer)
  | some x =>
    rcases (h.some x hproducer).2.2 with ⟨hbytes, -⟩ | ⟨hbytes, -⟩
    · exact Or.inr ⟨x, hproducer, hbytes⟩
    · exact Or.inl hbytes

theorem Inv.inStep (h : s.Inv) : s.InStep := by
  obtain ⟨bytes, hbytes⟩ := h.producer
  exact ⟨h.wf.head_nonneg, h.wf.head_le, h.wire_eq, bytes, hbytes.underWay, hbytes.accepted_eq⟩

theorem inv_init {cache : BufferCache} (w : cache.WF) : (init cache).Inv :=
  ⟨w, trivial, rfl, [], fun _ => rfl, by simp [init], (List.append_nil _).symm⟩

theorem StageFits.pending_le (h : StageFits s.cache s.stage) :
    s.pending ≤ s.cache.contents.length := by
  unfold pending
  cases hstage : s.stage with
  | taking tmp result =>
    rw [hstage] at h
    obtain ⟨-, -, -, hlen⟩ := h
    show result.toNat ≤ _
    omega
  | _ => exact Nat.zero_le _

/-! ## The producers -/

/-- A producer's write, which adds `more` to the contents. -/
theorem Inv.produce (h : s.Inv) {cache : BufferCache} (hgrow : Grows s.cache cache)
    {more : List UInt8} (hmore : cache.contents = s.cache.contents ++ more)
    {producer : Option (List UInt8 × Nat)} {accepted : List UInt8}
    (hproducer : ∃ bytes, ProducerFits { s with cache, producer, accepted } bytes) :
    ({ s with cache, producer, accepted } : WritePump).Inv := by
  refine ⟨hgrow.wf, hgrow.stageFits h.wf h.fits, ?_, hproducer⟩
  show s.wire = s.removed ++ cache.contents.take s.pending
  rw [hmore, List.take_append_of_le_length h.fits.pending_le]
  exact h.wire_eq

theorem Inv.writeHeader (h : s.Inv) {buffer : List UInt8} {len : Nat}
    (hok : s.Allowed (.writeHeader buffer len))
    (hs : s.step (.writeHeader buffer len) = some s') : s'.Inv := by
  unfold step at hs
  dsimp only at hs
  split at hs
  · rename_i hlen
    obtain ⟨hfree, hlen, hbuf⟩ := hlen
    obtain ⟨r, hr, rfl⟩ := Option.map_eq_some_iff.mp hs
    obtain ⟨bytes₀, hbytes₀⟩ := h.producer
    have hacc := hbytes₀.accepted_eq
    rw [hbytes₀.none hfree, List.append_nil] at hacc
    rcases header_cases h.wf hok hr with rfl | ⟨hne, hgrow, bytes, hbytes, hcase⟩
    · rw [if_pos rfl]
      refine h.produce ⟨h.wf, rfl, rfl, List.prefix_refl _⟩ (List.append_nil _).symm
        ⟨[], fun _ => rfl, by simp, ?_⟩
      dsimp only
      rw [hacc, List.append_nil]
    · rw [if_neg hne]
      refine h.produce hgrow hbytes ⟨bytes, nofun, fun x hx => ?_, ?_⟩
      · obtain rfl := Option.mem_some_iff.mp hx
        exact ⟨hlen, hbuf, hcase⟩
      · dsimp only
        rw [hbytes, ← List.append_assoc, hacc]
  · cases hs

theorem Inv.writePayload (h : s.Inv) (hs : s.step .writePayload = some s') : s'.Inv := by
  obtain ⟨⟨buffer, len⟩, hproducer, hs⟩ := Option.bind_eq_some_iff.mp hs
  obtain ⟨r, hr, rfl⟩ := Option.map_eq_some_iff.mp hs
  obtain ⟨bytes, hbytes⟩ := h.producer
  obtain ⟨hlen, hbuf, hcase⟩ := hbytes.some _ hproducer
  obtain ⟨hgrow, more, hmore, hwhole⟩ := payload_cases_of_case h.wf hlen hbuf hcase hr
  refine h.produce hgrow hmore ⟨[], fun _ => rfl, by simp, ?_⟩
  dsimp only
  rw [hmore, ← List.append_assoc, hbytes.accepted_eq, List.append_assoc, hwhole, List.append_nil]
  split_ifs
  · rw [List.append_nil]
  · rfl

/-! ## The pump -/

/-- The pump goes to another place, with nothing pending here and there. -/
theorem Inv.goto (h : s.Inv) {stage : PumpStage} (hfits : StageFits s.cache stage)
    (hpending : s.pending = 0) (hpending' : pending { s with stage } = 0) :
    ({ s with stage } : WritePump).Inv := by
  refine ⟨h.wf, hfits, ?_, ?_⟩
  · have hwire := h.wire_eq
    rw [hpending] at hwire
    rw [hpending']
    exact hwire
  · obtain ⟨bytes, hnone, hsome, hacc⟩ := h.producer
    exact ⟨bytes, hnone, hsome, hacc⟩

theorem Inv.enter (h : s.Inv) (hs : s.step .enter = some s') : s'.Inv := by
  unfold step at hs
  dsimp only at hs
  split at hs
  · rename_i hstage
    cases hs
    refine h.goto (stageFits_turn _ bufferCalloc_block) ?_ rfl
    rw [pending, hstage]
  · cases hs

/-- A step of the look, under the condition. -/
theorem look_fits {c : BufferCache} (w : c.WF) {tmp : Buffer} {point : LookPoint}
    (hfits : StageFits c (.looking point tmp))
    (hok : ∀ unwrapped, point = .assignSize unwrapped →
      (unwrapped = true → c.head ≤ c.tail) ∧ c.size ≤ BLOCK_SIZE)
    {r : Option LookPoint × Buffer} (hr : c.lookStep tmp point = some r) :
    StageFits c (r.1.elim (.writing r.2) fun point => .looking point r.2) := by
  obtain ⟨hdata, hpoint⟩ := hfits
  cases point with
  | compare =>
    cases hr
    exact ⟨hdata, hpoint, fun hfalse => Int.not_le.mp (of_decide_eq_false hfalse)⟩
  | compareSize unwrapped =>
    cases hr
    obtain ⟨hlength, hfalse⟩ := hpoint
    dsimp only [Option.elim]
    split_ifs with hgreater
    · exact ⟨hdata, hlength⟩
    · -- The cache has a whole block at least, or the return would be smaller.
      have htrue : unwrapped = true → c.head ≤ c.tail := by
        rintro rfl
        by_contra hlt
        have hneg := sizeReturn_neg (show c.tail < c.head by omega)
        unfold BLOCK_SIZE at hlength
        omega
      have hsize := sizeReturn_of_iff w (unwrapped_iff htrue hfalse)
      exact ⟨hdata, by omega, by omega, by omega⟩
  | assign =>
    cases hr
    exact ⟨hdata, fun hfalse => Int.not_le.mp (of_decide_eq_false hfalse)⟩
  | assignSize unwrapped =>
    cases hr
    obtain ⟨htrue, hblock⟩ := hok unwrapped rfl
    have hsize := sizeReturn_of_iff w (unwrapped_iff htrue hpoint)
    rw [w.size_eq] at hblock
    exact ⟨hdata, by dsimp only; omega, by dsimp only; omega, by dsimp only; omega⟩
  | test =>
    cases hr
    dsimp only
    obtain ⟨hlow, hblock, hlen⟩ := hpoint
    by_cases hempty : c.isEmpty = true
    · rw [if_pos hempty]
      have hnil := w.isEmpty_iff.mp hempty
      refine ⟨hdata, hblock, hlen, fun k hk => ?_⟩
      rw [hnil, List.length_nil] at hlen
      obtain rfl : k = 0 := by omega
      rw [List.take_zero, List.take_zero]
    · rw [if_neg hempty]
      exact ⟨hdata, hlow, hblock, hlen⟩
  | copy =>
    obtain ⟨hlow, hblock, hlen⟩ := hpoint
    have hcopy := w.copyOut_of_le hlow hlen (by omega)
    obtain ⟨data, hdata', rfl⟩ := Option.map_eq_some_iff.mp hr
    cases hcopy.symm.trans hdata'
    refine ⟨?_, hblock, hlen, fun k hk => ?_⟩
    · dsimp only
      rw [List.length_append, List.length_take, List.length_drop]
      omega
    · dsimp only at hk ⊢
      rw [List.take_append_of_le_length (by rw [List.length_take]; omega), List.take_take,
        Nat.min_eq_left (by omega)]

theorem Inv.look (h : s.Inv) (hok : s.Allowed .look) (hs : s.step .look = some s') : s'.Inv := by
  unfold step at hs
  dsimp only at hs
  split at hs
  · rename_i point tmp hstage
    obtain ⟨r, hr, rfl⟩ := Option.map_eq_some_iff.mp hs
    have hfits := h.fits
    unfold Allowed LookFits at hok
    rw [hstage] at hfits hok
    have hassign : ∀ unwrapped, point = .assignSize unwrapped →
        (unwrapped = true → s.cache.head ≤ s.cache.tail) ∧ s.cache.size ≤ BLOCK_SIZE := by
      rintro unwrapped rfl
      exact hok
    refine h.goto (look_fits h.wf hfits hassign hr) (by rw [pending, hstage]) ?_
    obtain ⟨next, tmp'⟩ := r
    cases next <;> rfl
  · cases hs

theorem Inv.socketWrite (h : s.Inv) {result : Int} (hs : s.step (.socketWrite result) = some s') :
    s'.Inv := by
  unfold step at hs
  dsimp only at hs
  split at hs
  · rename_i tmp hstage
    split at hs
    · rename_i hres
      cases hs
      have hfits := h.fits
      have hwire := h.wire_eq
      unfold pending at hwire
      rw [hstage] at hfits hwire
      obtain ⟨hdata, hblock, hlen, hfront⟩ := hfits
      obtain ⟨bytes, hnone, hsome, hacc⟩ := h.producer
      refine ⟨h.wf, ⟨hdata, hres.1, by omega, by dsimp only; omega⟩, ?_,
        bytes, hnone, hsome, hacc⟩
      show s.wire ++ tmp.data.take result.toNat =
        s.removed ++ s.cache.contents.take result.toNat
      have hsent : tmp.data.take result.toNat = s.cache.contents.take result.toNat := by
        by_cases h0 : 0 ≤ result
        · exact hfront _ (by omega)
        · rw [Int.toNat_of_nonpos (by omega), List.take_zero, List.take_zero]
      rw [hsent, hwire, List.take_zero, List.append_nil]
    · cases hs
  · cases hs

theorem Inv.take (h : s.Inv) (hok : s.Allowed .take) (hs : s.step .take = some s') :
    s'.Inv := by
  unfold step at hs
  dsimp only at hs
  split at hs
  · rename_i tmp result hstage
    split at hs
    · rename_i hfree
      obtain ⟨r, hr, rfl⟩ := Option.map_eq_some_iff.mp hs
      have hfits := h.fits
      have hwire := h.wire_eq
      unfold pending at hwire
      unfold Allowed ErrorOnEmpty at hok
      rw [hstage] at hfits hwire hok
      dsimp only at hwire hok
      obtain ⟨hdata, hlow, hblock, hlen⟩ := hfits
      obtain ⟨tmp', cache', hr', htmp', w', hc'⟩ := takeTurn_result h.wf hdata hlow hblock hok
      obtain rfl : r = (tmp', cache') := Option.some.inj (hr.symm.trans hr')
      dsimp only at w' htmp' hc' ⊢
      have hgone : s.cache.contents.length - cache'.contents.length = result.toNat := by
        rw [hc', List.length_drop]
        omega
      rw [hgone]
      obtain ⟨bytes, hbytes⟩ := h.producer
      have hacc := hbytes.accepted_eq
      rw [hbytes.none hfree, List.append_nil] at hacc
      refine ⟨w', ?_, ?_, [], fun _ => rfl, by rw [hfree]; simp, ?_⟩
      · dsimp only
        split
        · trivial
        · exact stageFits_turn _ htmp'
      · have hzero : pending { s with
            cache := cache'
            stage := if toSizeT result ≠ BLOCK_SIZE then .out else turn tmp'
            removed := s.removed ++ s.cache.contents.take result.toNat } = 0 := by
          unfold pending
          dsimp only
          split_ifs <;> rfl
        rw [hzero, List.take_zero, List.append_nil]
        exact hwire
      · show s.removed ++ s.cache.contents.take result.toNat ++ cache'.contents = s.accepted ++ []
        rw [hc', List.append_assoc, List.take_append_drop, List.append_nil]
        exact hacc
    · cases hs
  · cases hs

theorem Inv.step (h : s.Inv) {a : Action} (hok : s.Allowed a) (hs : s.step a = some s') :
    s'.Inv := by
  cases a with
  | writeHeader buffer len => exact h.writeHeader hok hs
  | writePayload => exact h.writePayload hs
  | enter => exact h.enter hs
  | look => exact h.look hok hs
  | socketWrite result => exact h.socketWrite hs
  | take => exact h.take hok hs

/-- The turn under way is exact under the conditions on the pump, and otherwise
it is not. -/
theorem Inv.turnExact_iff (h : s.Inv) : s.TurnExact ↔ s.ErrorOnEmpty ∧ s.LookFits := by
  have hfits := h.fits
  unfold TurnExact ErrorOnEmpty LookFits
  cases hstage : s.stage with
  | out => exact iff_of_true trivial ⟨trivial, trivial⟩
  | writing tmp => exact iff_of_true trivial ⟨trivial, trivial⟩
  | looking point tmp =>
    rw [hstage] at hfits
    obtain ⟨hdata, hpoint⟩ := hfits
    dsimp only
    rw [true_and]
    cases point with
    | compare =>
      obtain ⟨tmp', hlook, -⟩ := lookTurn_eq h.wf hdata
      have hturn : { tmp with length := (BLOCK_SIZE : Int) } = tmp := by
        rw [← show tmp.length = BLOCK_SIZE from hpoint]
      rw [lookTurn, hturn] at hlook
      rw [finishLook_compare, hlook]
      exact iff_of_true rfl trivial
    | compareSize unwrapped => exact finishLook_compareSize_iff h.wf 1 hdata hpoint
    | assign => exact finishLook_assign_iff h.wf 2 hdata
    | assignSize unwrapped => exact finishLook_assignSize_iff h.wf 3 hdata hpoint
    | test => exact iff_of_true (finishLook_test_isSome h.wf 4 hdata hpoint) trivial
    | copy =>
      obtain ⟨hlow, hblock, hlen⟩ := hpoint
      rw [finishLook_copy, h.wf.copyOut_of_le hlow hlen (by omega)]
      exact iff_of_true rfl trivial
  | taking tmp result =>
    rw [hstage] at hfits
    dsimp only
    rw [and_true]
    constructor
    · rintro ⟨r, hr, -⟩ rfl
      by_contra hempty
      rw [takeTurn_undefined h.wf tmp hempty] at hr
      cases hr
    · intro hok
      obtain ⟨hdata, hlow, hblock, -⟩ := hfits
      obtain ⟨tmp', cache', htake, -, -, hc'⟩ := takeTurn_result h.wf hdata hlow hblock hok
      exact ⟨_, htake, hc'⟩

/-- For every write cache and every interleaving of producers with the pump:
the bytes are in step, and the turn under way is defined and takes off what the
socket took exactly when no error meets a cache with bytes in it and the look
gets a length for its block. -/
theorem pump_in_step (size : Int) {cache : BufferCache} (hc : Reachable use (new size) cache)
    (h : ReachableIf step Allowed (init cache) s) :
    s.InStep ∧ (s.TurnExact ↔ s.ErrorOnEmpty ∧ s.LookFits) := by
  have hinv := h.invariant (inv_init (wf_of_reachable hc)) fun _ _ _ hi hok hs => hi.step hok hs
  exact ⟨hinv.inStep, hinv.turnExact_iff⟩

/-- A short write, with the header of a second package put in inside the look,
and its payload behind it. -/
theorem pump_in_step_short_write :
    ∃ s : WritePump, s.wire.length = 15 ∧ s.accepted.length = 21 ∧ s.InStep ∧ s.TurnExact := by
  obtain ⟨s, hs, hP⟩ : ∃ s, ReachableIf step Allowed (init (new 32)) s ∧
      ((s.wire.length = 15 ∧ s.accepted.length = 21) ∧ s.ErrorOnEmpty ∧ s.LookFits) :=
    exists_reachable_of_run
      [.writeHeader [1, 2, 3] 3, .writePayload, .enter, .look, .look, .writeHeader [4, 5] 2, .look,
        .look, .writePayload, .look, .look, .socketWrite 15]
      (by decide +kernel)
  have hrun := pump_in_step 32 .init hs
  exact ⟨s, hP.1.1, hP.1.2, hrun.1, hrun.2.mpr hP.2⟩

/-- The connection breaks with a package in the cache. -/
theorem error_removes_minus_one :
    ∃ s, Reachable step (init (new 32)) s ∧ ¬ s.TurnExact :=
  exists_reachable_of_run
    [.writeHeader [1, 2, 3] 3, .writePayload, .enter, .look, .look, .look, .look, .look, .look,
      .socketWrite (-1)]
    (by decide +kernel)

/-- A package of 2100 bytes comes in between the two sizes of a look. -/
example : ∃ s, Reachable step (init (new 4096)) s ∧ ¬ s.TurnExact :=
  exists_reachable_of_run
    [.enter, .look, .look, .writeHeader (List.replicate 2100 7) 2100, .writePayload]
    (by decide +kernel)

end WritePump

end CppRpc
