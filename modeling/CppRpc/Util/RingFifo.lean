import CppRpc.Lib.Fifo
import CppRpc.Lib.Runs
import CppRpc.Util.Ring

/-!
# The ring against a bounded queue

What a `BufferCacheBase` is for: a queue of bytes that holds up to `capacity`
of them.  `Fifo` is that queue, and this module compares the two on every list
of calls.  `Call` is a call with its arguments, `Answer` what the caller
observes of it, including `size()` afterwards.

The two agree on every call but one: a block of exactly the free size that
arrives while the head is not at zero.  The ring has no count, so it cannot
tell a full ring from an empty one once the tail has caught up with the head
there.  `refines_fifo_iff` says that the answers agree on a list of calls
exactly when the list makes no such call.
-/

namespace CppRpc

open CData Runs

namespace BufferCacheBase

/-- A call on a cache.  The caller's buffer of a `read` or a `have_a_look` has
room for the `n` bytes that it asks for. -/
inductive Call
  | write (block : List UInt8)
  | read (n : Nat)
  | haveALook (n : Nat)

/-- What a call shows: the return value, the bytes in the caller's buffer, and
`size()` after the call. -/
structure Answer where
  result : Int
  bytes : List UInt8
  size : Int
  deriving DecidableEq

/-- A call on the ring. -/
def act (c : BufferCacheBase) : Call → Option (Answer × BufferCacheBase)
  | .write block =>
      (c.write ⟨block.length, block.length, block⟩).map fun r =>
        (⟨r.1, [], r.2.size⟩, r.2)
  | .read n =>
      (c.read ⟨n, n, List.replicate n 0⟩).map fun r =>
        (⟨r.1, r.2.1.data.take r.2.1.length.toNat, r.2.2.size⟩, r.2.2)
  | .haveALook n =>
      (c.haveALook ⟨n, n, List.replicate n 0⟩).map fun r =>
        (⟨r.1, r.2.data.take r.2.length.toNat, c.size⟩, c)

/-- The same call on the queue. -/
def fifoAct {capacity : Nat} (q : Fifo UInt8 capacity) :
    Call → Option (Answer × Fifo UInt8 capacity)
  | .write block => some (⟨(q.put block).1, [], (q.put block).2.items.length⟩, (q.put block).2)
  | .read n => some (⟨(q.take n).1.length, (q.take n).1, (q.take n).2.items.length⟩, (q.take n).2)
  | .haveALook n => some (⟨(q.peek n).length, q.peek n, q.items.length⟩, q)

/-- The call does not fill the ring to the last byte behind a head that is not
at zero. -/
def NoExactFill (c : BufferCacheBase) : Call → Prop
  | .write block =>
      ¬ (0 < block.length ∧ (block.length : Int) = c.capacity - c.size ∧ c.head ≠ 0)
  | _ => True

/-- The ring holds the items of the queue. -/
structure Holds {capacity : Nat} (c : BufferCacheBase) (q : Fifo UInt8 capacity) : Prop where
  wf : c.WF
  capacity_eq : c.capacity = capacity
  contents_eq : c.contents = q.items

section Refinement

variable {capacity : Nat} {c : BufferCacheBase} {q : Fifo UInt8 capacity}

theorem Holds.free_eq (h : Holds c q) : c.capacity - c.size = q.free := by
  have := q.bounded
  rw [h.capacity_eq, h.wf.size_eq, h.contents_eq, Fifo.free]
  omega

theorem Holds.read (h : Holds c q) (n : Nat) :
    ∃ o c' q', c.act (.read n) = some (o, c') ∧ fifoAct q (.read n) = some (o, q') ∧
      Holds c' q' := by
  obtain ⟨c', hr, hw, hc, hcap⟩ :=
    h.wf.read_eq n (show n ≤ (List.replicate n (0 : UInt8)).length by simp)
  have hc' : c'.contents = (q.take n).2.items := by rw [hc, h.contents_eq]; rfl
  refine ⟨_, c', _, ?_, rfl, ⟨hw, by rw [hcap, h.capacity_eq], hc'⟩⟩
  rw [act, hr, Option.map_some, hw.size_eq, hc', h.contents_eq, Int.toNat_natCast,
    List.take_left']
  · rfl
  · rfl

theorem Holds.haveALook (h : Holds c q) (n : Nat) :
    ∃ o c' q', c.act (.haveALook n) = some (o, c') ∧ fifoAct q (.haveALook n) = some (o, q') ∧
      Holds c' q' := by
  refine ⟨_, c, _, ?_, rfl, h⟩
  rw [act, h.wf.haveALook_eq n (by simp), Option.map_some, h.wf.size_eq,
    h.contents_eq, Int.toNat_natCast, List.take_left']
  · rfl
  · rfl

theorem Holds.write (h : Holds c q) {block : List UInt8} (hok : c.NoExactFill (.write block)) :
    ∃ o c' q', c.act (.write block) = some (o, c') ∧ fifoAct q (.write block) = some (o, q') ∧
      Holds c' q' := by
  have hfree := h.free_eq
  by_cases hfits : 0 < block.length ∧ block.length ≤ q.free
  · have hroom : (c.contents.length + block.length : Int) < c.capacity ∨
        (c.contents.length + block.length : Int) = c.capacity ∧ c.head = 0 := by
      rw [← h.wf.size_eq]
      by_cases hhead : c.head = 0
      · omega
      · unfold NoExactFill at hok
        have : ¬ ((block.length : Int) = c.capacity - c.size) := fun he =>
          hok ⟨hfits.1, he, hhead⟩
        omega
    obtain ⟨c', hw, hwf, hc, hcap, -⟩ :=
      h.wf.write_eq block.length hfits.1 (Nat.le_refl _) hroom
    have hc' : c'.contents = (q.put block).2.items := by
      rw [hc, h.contents_eq, Fifo.put_items_of_fits hfits.1 hfits.2, List.take_length]
    refine ⟨_, c', _, ?_, rfl, ⟨hwf, by rw [hcap, h.capacity_eq], hc'⟩⟩
    rw [act, hw, Option.map_some, hwf.size_eq, hc', Fifo.put_fst_of_fits hfits.1 hfits.2]
  · have hrej : c.write ⟨block.length, block.length, block⟩ = some (0, c) := by
      refine write_rejected c (Or.inr ?_)
      dsimp only
      omega
    refine ⟨⟨0, [], c.size⟩, c, q, ?_, ?_, h⟩
    · rw [act, hrej, Option.map_some]
    · rw [fifoAct, Fifo.put_of_not_fits hfits, h.wf.size_eq, h.contents_eq]
      rfl

/-- An exact fill behind a head that is not at zero shows: the ring refuses the
block, or its size afterwards is zero. -/
theorem Holds.exact_fill (h : Holds c q) {block : List UInt8}
    (hbad : ¬ c.NoExactFill (.write block)) :
    ∃ o c' o' q', c.act (.write block) = some (o, c') ∧ fifoAct q (.write block) = some (o', q') ∧
      o ≠ o' := by
  unfold NoExactFill at hbad
  obtain ⟨hpos, hfill, hhead⟩ := Decidable.not_not.mp hbad
  have hfits : block.length ≤ q.free := by
    have := h.free_eq
    omega
  have hfill' : (c.contents.length + block.length : Int) = c.capacity := by
    rw [← h.wf.size_eq]
    omega
  have hq : fifoAct q (.write block) =
      some (⟨block.length, [], (q.items ++ block).length⟩, (q.put block).2) := by
    rw [fifoAct, Fifo.put_fst_of_fits hpos hfits, Fifo.put_items_of_fits hpos hfits]
  rcases h.wf.write_exact_fill block.length hpos (Nat.le_refl _) hfill' hhead with
    hrej | ⟨c', hw, hwf, hnil⟩
  · refine ⟨_, c, _, _, by rw [act, hrej, Option.map_some], hq, ?_⟩
    intro he
    have : (0 : Int) = block.length := congrArg Answer.result he
    omega
  · refine ⟨_, c', _, _, by rw [act, hw, Option.map_some], hq, ?_⟩
    intro he
    have hsize : c'.size = ((q.items ++ block).length : Int) := congrArg Answer.size he
    rw [hwf.size_eq, hnil, List.length_append, List.length_nil] at hsize
    omega

end Refinement

theorem fifo_never_stuck {capacity : Nat} (q : Fifo UInt8 capacity) (calls : List Call) :
    (outputs fifoAct q calls).isSome := by
  induction calls generalizing q with
  | nil => rfl
  | cons call calls ih =>
    cases call <;> simp only [outputs, fifoAct, Option.bind_some, Option.isSome_map, ih]

/-- A fresh ring answers every list of calls as the bounded queue does, byte
for byte and size for size, exactly when no call of the list fills it to the
last byte behind a head that is not at zero. -/
theorem refines_fifo_iff (size : Int) (calls : List Call) :
    outputs act (new size) calls =
        outputs fifoAct (Fifo.empty : Fifo UInt8 (new size).capacity.toNat) calls ↔
      OkAlong act NoExactFill (new size) calls := by
  refine outputs_eq_iff (R := Holds) ?_ ?_ fifo_never_stuck ?_ calls
  · intro c q call h hok
    cases call with
    | write block => exact h.write hok
    | read n => exact h.read n
    | haveALook n => exact h.haveALook n
  · intro c q call h hbad
    cases call with
    | write block => exact h.exact_fill hbad
    | read n => exact absurd trivial hbad
    | haveALook n => exact absurd trivial hbad
  · refine ⟨new_wf size, ?_, contents_new size⟩
    have := (new_wf size).contents_length_le
    omega

/-- Two bytes in, one out, three in: the last block fills a ring of four, and
all four bytes are gone. -/
theorem exact_fill_loses_bytes :
    outputs act (new 4) [.write [1, 2], .read 1, .write [3, 4, 5], .read 4] ≠
      outputs fifoAct (Fifo.empty : Fifo UInt8 (new 4).capacity.toNat)
        [.write [1, 2], .read 1, .write [3, 4, 5], .read 4] := by
  decide

end BufferCacheBase

end CppRpc
