import CppRpc.Lib.Runs
import CppRpc.Util.TimerParts

/-!
# The active timers as a heap

`Valid` is the representation invariant of `TimerManager`: it is shaped, and
the active entries are a heap on their expiry.

`disable_timer` takes a timer out of the heap by a `pop_heap` on the range that
starts at it.  That range is a heap with the right root only when the timer
stands at the root, or is the last one.  `AtAnEnd` is this condition,
`valid_of_atAnEnd` the result for the runs that meet it, and
`disable_breaks_heap` a run that does not.
-/

namespace CppRpc

open BinaryHeap Runs

namespace TimerManager

/-- The representation invariant. -/
structure Valid (m : TimerManager) : Prop extends m.Shaped where
  heap : IsHeap TimerEntry.expired m.active

variable {m : TimerManager} {t : TimerPtr}

theorem Valid.exists_parts (h : m.Valid) : ∃ xs ys, m = ofParts xs ys ∧
    IsHeap TimerEntry.expired xs := by
  obtain ⟨xs, ys, rfl, -⟩ := h.toShaped.exists_parts
  refine ⟨xs, ys, rfl, ?_⟩
  have := h.heap
  rwa [active_ofParts] at this

theorem valid_new : new.Valid :=
  ⟨@shaped_ofParts [] [] List.nodup_nil, fun i hi => absurd hi (Nat.not_lt_zero i)⟩

/-! ## The operations -/

theorem Valid.addTimer (h : m.Valid) (t : TimerPtr) : (m.addTimer t).Valid := by
  refine ⟨(h.toShaped.addTimer t).1, ?_⟩
  obtain ⟨xs, ys, rfl, hh⟩ := h.exists_parts
  rw [addTimer_ofParts]
  split
  · exact h.heap
  · rw [active_ofParts]
    exact hh

/-- The condition on a `disable_timer` or a `remove_timer`: its timer is the
root, or the last active one, or not active. -/
def AtAnEnd (m : TimerManager) (timer : TimerPtr) : Prop :=
  ∀ pos ∈ m.position timer, pos = 0 ∨ (pos : Int) + 1 = m.activedTimers

/-- Without the timer at an end the active part is still a heap. -/
theorem Valid.disableTimer (h : m.Valid) (hend : m.AtAnEnd t) :
    ∃ m', m.disableTimer t = some m' ∧ m'.Valid ∧ t ∉ m'.activeTimers := by
  obtain ⟨m', heq, hshaped, hactive⟩ := h.toShaped.disableTimer t
  refine ⟨m', heq, ⟨hshaped, ?_⟩, fun ht => ((hactive t).mp ht).2 rfl⟩
  obtain ⟨xs, ys, rfl, hh⟩ := h.exists_parts
  rcases disableTimer_cases xs ys t with
    ⟨-, -, heq'⟩ | ⟨xs₁, a, xs₂, rest, rfl, -, hpos, hperm, hheap, heq'⟩
  · obtain rfl := Option.some.inj (heq.symm.trans heq')
    rw [active_ofParts]
    exact hh
  · obtain rfl := Option.some.inj (heq.symm.trans heq')
    rw [active_ofParts]
    rcases hend _ hpos with hroot | hlast
    · obtain rfl := List.eq_nil_of_length_eq_zero hroot
      exact hheap hh
    · have hlen : (xs₁.length : Int) + 1 = ((xs₁ ++ a :: xs₂).length : Nat) := hlast
      rw [List.length_append, List.length_cons] at hlen
      have hrest := hperm.length_eq
      obtain rfl := List.eq_nil_of_length_eq_zero (show rest.length = 0 by omega)
      have htake := hh.take xs₁.length
      rw [List.take_left' rfl] at htake
      rw [List.append_nil]
      exact htake

theorem Valid.eraseTimer (h : m.Valid) (ht : t ∉ m.activeTimers) : (m.eraseTimer t).Valid := by
  refine ⟨(h.toShaped.eraseTimer ht).1, ?_⟩
  obtain ⟨xs, ys, rfl, hh⟩ := h.exists_parts
  rw [activeTimers_ofParts] at ht
  rw [eraseTimer_ofParts ht, active_ofParts]
  exact hh

theorem Valid.removeTimer (h : m.Valid) (hend : m.AtAnEnd t) :
    ∃ m', m.removeTimer t = some m' ∧ m'.Valid := by
  obtain ⟨m₁, heq, h₁, ht⟩ := h.disableTimer hend
  refine ⟨_, ?_, h₁.eraseTimer ht⟩
  rw [TimerManager.removeTimer, heq, Option.map_some]

theorem Valid.enableTimer (h : m.Valid) (t : TimerPtr) (expired : Int) :
    (m.enableTimer t expired).Valid := by
  refine ⟨(h.toShaped.enableTimer t expired).1, ?_⟩
  obtain ⟨xs, ys, rfl, hh⟩ := h.exists_parts
  rcases enableTimer_cases xs ys t expired with ⟨-, heq⟩ | ⟨zs, -, heq⟩
  · rw [heq]
    exact h.heap
  · rw [heq, active_ofParts]
    exact isHeap_pushHeap hh

/-- One turn of the loop in `run`. -/
theorem Valid.popDue (h : m.Valid) (hscan : m.scanning = true) (now : Int) :
    ∃ r, m.popDue now = some r ∧ r.2.Valid ∧ (r.1 = none → r.2 = m) ∧
      (∀ t, r.1 = some t → r.2.activedTimers = m.activedTimers - 1) := by
  have hpos : 0 < m.activedTimers := by
    unfold scanning at hscan
    rw [Bool.and_eq_true] at hscan
    exact of_decide_eq_true hscan.1
  obtain ⟨r, heq, hshaped, hnone, hsome⟩ := h.toShaped.popDue hpos now
  refine ⟨r, heq, ⟨hshaped, ?_⟩, hnone, fun t ht => (hsome t ht).2.1⟩
  obtain ⟨xs, ys, rfl, hh⟩ := h.exists_parts
  cases xs with
  | nil => exact absurd hpos (Int.lt_irrefl 0)
  | cons a xs =>
    rcases popDue_cases a xs ys now with ⟨-, heq'⟩ | ⟨-, rest, -, hheap, heq'⟩
    · obtain rfl := Option.some.inj (heq.symm.trans heq')
      exact h.heap
    · obtain rfl := Option.some.inj (heq.symm.trans heq')
      rw [active_ofParts]
      exact hheap hh

/-- A scan with enough fuel ends because no active timer is left or the root
is not due. -/
theorem Valid.scan (h : m.Valid) (now : Int) {fuel : Nat}
    (hfuel : m.activedTimers < fuel) :
    ∃ r, m.scan now fuel = some r ∧ r.2.Valid ∧
      (r.2.scanning = false ∨ r.2.popDue now = some (none, r.2)) := by
  induction fuel generalizing m with
  | zero => exact absurd h.actived_nonneg (Int.not_le.mpr hfuel)
  | succ fuel ih =>
    unfold TimerManager.scan
    by_cases hscan : m.scanning = true
    · obtain ⟨⟨collected, m'⟩, hpop, hm', hstop, htaken⟩ := h.popDue hscan now
      rw [if_pos hscan, hpop, Option.bind_some]
      cases collected with
      | none =>
        obtain rfl : m' = m := hstop rfl
        exact ⟨_, rfl, hm', Or.inr hpop⟩
      | some t =>
        have hless : m'.activedTimers = m.activedTimers - 1 := htaken t rfl
        obtain ⟨r, hr, hvalid, hend⟩ :=
          ih hm' (show m'.activedTimers < fuel by omega)
        refine ⟨(t :: r.1, r.2), ?_, hvalid, hend⟩
        dsimp only
        rw [hr, Option.map_some]
    · rw [if_neg hscan]
      exact ⟨_, rfl, h, Or.inl (Bool.not_eq_true _ ▸ hscan)⟩

/-! ## Runs -/

/-- The calls that other code makes, and the scans of the timer thread.  A
`time_out` of a `CIRCLE` timer behind a scan is an `enableTimer`. -/
inductive Op
  | addTimer (timer : TimerPtr)
  | removeTimer (timer : TimerPtr)
  | enableTimer (timer : TimerPtr) (expired : Int)
  | disableTimer (timer : TimerPtr)
  | run (now : Int)

def step (m : TimerManager) : Op → Option TimerManager
  | .addTimer t => some (m.addTimer t)
  | .removeTimer t => m.removeTimer t
  | .enableTimer t expired => some (m.enableTimer t expired)
  | .disableTimer t => m.disableTimer t
  | .run now => (m.run now).map (·.2)

/-- A timer that is disabled or removed stands at an end of the active part. -/
def OpAtAnEnd (m : TimerManager) : Op → Prop
  | .removeTimer t | .disableTimer t => m.AtAnEnd t
  | _ => True

instance (m : TimerManager) (t : TimerPtr) : Decidable (m.AtAnEnd t) :=
  inferInstanceAs (Decidable (∀ pos ∈ m.position t, _))

instance (m : TimerManager) : DecidablePred m.OpAtAnEnd
  | .removeTimer t => inferInstanceAs (Decidable (m.AtAnEnd t))
  | .disableTimer t => inferInstanceAs (Decidable (m.AtAnEnd t))
  | .addTimer _ | .enableTimer _ _ | .run _ => isTrue trivial

/-- One turn of the loop in `run` that takes a timer. -/
def scanTurn (now : Int) (m : TimerManager) (_ : Unit) : Option TimerManager :=
  if m.scanning then
    (m.popDue now).bind fun r => if r.1.isSome then some r.2 else none
  else none

/-- Every heap call of an operation gets a range that is a heap: `pop_heap`
the whole of its range, `push_heap` all but the last entry. -/
def HeapCallsMet (m : TimerManager) : Op → Prop
  | .removeTimer t | .disableTimer t =>
      ∀ pos ∈ m.position t, IsHeap TimerEntry.expired (m.active.drop pos)
  | .enableTimer _ _ => IsHeap TimerEntry.expired m.active
  | .run now => ∀ m', Reachable (scanTurn now) m m' → IsHeap TimerEntry.expired m'.active
  | .addTimer _ => True

theorem Valid.step (h : m.Valid) {op : Op} (hend : m.OpAtAnEnd op) :
    ∃ m', m.step op = some m' ∧ m'.Valid := by
  cases op with
  | addTimer t => exact ⟨_, rfl, h.addTimer t⟩
  | removeTimer t => exact h.removeTimer hend
  | enableTimer t expired => exact ⟨_, rfl, h.enableTimer t expired⟩
  | disableTimer t =>
    obtain ⟨m', heq, hm', -⟩ := h.disableTimer hend
    exact ⟨m', heq, hm'⟩
  | run now =>
    have h0 := h.actived_nonneg
    obtain ⟨r, hr, hvalid, -⟩ :=
      h.scan now (show m.activedTimers < ((m.activedTimers.toNat + 1 : Nat) : Int) by omega)
    refine ⟨r.2, ?_, hvalid⟩
    rw [TimerManager.step, run, hr, Option.map_some]

/-- The range behind a timer at an end is a heap. -/
theorem Valid.heap_drop (h : m.Valid) (hend : m.AtAnEnd t) {pos : Nat}
    (hpos : pos ∈ m.position t) : IsHeap TimerEntry.expired (m.active.drop pos) := by
  rcases hend pos hpos with rfl | hlast
  · exact h.heap
  · have hlen : (m.active.drop pos).length ≤ 1 := by
      unfold active
      rw [List.length_drop, List.length_take]
      omega
    intro i hi h0
    omega

theorem Valid.heapCallsMet (h : m.Valid) {op : Op} (hend : m.OpAtAnEnd op) :
    m.HeapCallsMet op := by
  cases op with
  | addTimer t => trivial
  | removeTimer t => exact fun pos hpos => h.heap_drop hend hpos
  | disableTimer t => exact fun pos hpos => h.heap_drop hend hpos
  | enableTimer t expired => exact h.heap
  | run now =>
    intro m' hm'
    refine (hm'.invariant (P := Valid) h ?_).heap
    intro m₁ _ m₂ h₁ _ hturn
    unfold scanTurn at hturn
    split at hturn
    · rename_i hscan
      obtain ⟨r, hpop, hr, -⟩ := h₁.popDue hscan now
      rw [hpop, Option.bind_some] at hturn
      split at hturn
      · exact Option.some.inj hturn ▸ hr
      · cases hturn
    · cases hturn

/-- In every run of operations that disable and remove timers at an end of the
active part only, the representation invariant holds, the root is an earliest
active timer, and the next such operation runs within the vector and calls the
heap functions on heaps. -/
theorem valid_of_atAnEnd (h : ReachableIf step OpAtAnEnd new m) :
    m.Valid ∧ (∀ root ∈ m.timers.head?, ∀ e ∈ m.active, root.expired ≤ e.expired) ∧
      ∀ op, m.OpAtAnEnd op → m.HeapCallsMet op ∧ (m.step op).isSome := by
  obtain ⟨hvalid, henabled⟩ := h.invariant_enabled valid_new fun _ _ hm hend => hm.step hend
  refine ⟨hvalid, ?_, fun op hend => ⟨hvalid.heapCallsMet hend, henabled op hend⟩⟩
  intro root hroot e he
  obtain ⟨xs, ys, rfl, hh⟩ := hvalid.exists_parts
  rw [active_ofParts] at he
  obtain ⟨i, hi, rfl⟩ := List.getElem_of_mem he
  have hle := hh.root_le hi
  cases xs with
  | nil => exact absurd hi (Nat.not_lt_zero i)
  | cons a xs =>
    obtain rfl : a = root := Option.some.inj hroot
    exact hle

/-- Three timers: the last active one is disabled, the root is removed, and a
scan takes the third. -/
theorem valid_of_atAnEnd_three_timers :
    ∃ m : TimerManager, m.timers = [⟨2, 20⟩, ⟨1, 30⟩] ∧ m.activedTimers = 0 ∧
      m.Valid ∧ (∀ root ∈ m.timers.head?, ∀ e ∈ m.active, root.expired ≤ e.expired) ∧
      ∀ op, m.OpAtAnEnd op → m.HeapCallsMet op ∧ (m.step op).isSome := by
  obtain ⟨m, hm, htimers, hactived⟩ : ∃ m : TimerManager, ReachableIf step OpAtAnEnd new m ∧
      m.timers = [⟨2, 20⟩, ⟨1, 30⟩] ∧ m.activedTimers = 0 :=
    exists_reachable_of_run
      [.addTimer 0, .addTimer 1, .addTimer 2, .enableTimer 0 10, .enableTimer 2 20,
        .enableTimer 1 30, .disableTimer 1, .removeTimer 0, .run 25]
      (by decide +kernel)
  exact ⟨m, htimers, hactived, valid_of_atAnEnd hm⟩

/-- Six timers in a heap.  The one at index 3 is disabled, the last one takes
its place, and it comes before the parent of that place. -/
theorem disable_breaks_heap :
    ∃ m, Reachable step new m ∧ ¬ IsHeap TimerEntry.expired m.active :=
  exists_reachable_of_run
    [.addTimer 0, .addTimer 1, .addTimer 2, .addTimer 3, .addTimer 4, .addTimer 5,
      .enableTimer 0 1, .enableTimer 1 8, .enableTimer 2 2, .enableTimer 3 9, .enableTimer 4 10,
      .enableTimer 5 3, .disableTimer 3]
    (by decide +kernel)

end TimerManager

end CppRpc
