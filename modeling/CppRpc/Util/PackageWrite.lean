import CppRpc.Util.Package
import CppRpc.Util.RingFifo

/-!
# What `write_package` leaves behind

`write_package` puts a frame into the cache by two writes, and each write makes
its own checks.  `AllOrNothing` is the property: the contents grow by the
header and the payload when it answers `true`, and stay as they were when it
answers `false`.

There are three groups.

* `WriteCase` lists the three outcomes of one write for a block of any length,
  and `WF.write_cases` says when each of them occurs.
* The cache over its lifetime.  `Use` is a use of the cache from outside, and
  `wf_of_reachable` carries the invariant of the ring to every reachable cache.
* `Whole` is the condition on the cache and the length, and `allOrNothing_iff`
  is the result.  A header that fits alone stays in the cache without its
  payload.  A frame of exactly the free size behind a head that is not zero
  takes the contents with it.
-/

namespace CppRpc

open CData Runs

namespace BufferCacheBase

variable {c : BufferCacheBase}

/-! ## The outcomes of a write -/

/-- A ring that looks full has one byte free, and its head is not at zero. -/
theorem WF.free_of_isFull (w : c.WF) (h : c.isFull = true) :
    (c.contents.length + 1 : Int) = c.capacity ∧ c.head ≠ 0 := by
  obtain ⟨d, l, hd, t, rfl, hh, ht, hlt, htp⟩ := w.exists_ring
  have hfull := (isFull_ring hh ht hlt).mp h
  rw [contents_ring_length hh ht, ringSize, if_neg (by omega)]
  constructor
  · show _ = (d.length : Int)
    omega
  · show (hd : Int) ≠ 0
    omega

/-- The outcomes of the write of a block of `n` bytes. -/
inductive WriteCase (c : BufferCacheBase) (n : Int) (bs : List UInt8) :
    Option (Int × BufferCacheBase) → Prop
  | rejected : (n ≤ 0 ∨ c.capacity < c.contents.length + n ∨ c.isFull = true) →
      WriteCase c n bs (some (0, c))
  | appended (c' : BufferCacheBase) : 0 < n →
      (c.contents.length + n < c.capacity ∨ c.contents.length + n = c.capacity ∧ c.head = 0) →
      c'.WF → c'.contents = c.contents ++ bs.take n.toNat → c'.capacity = c.capacity →
      c'.head = c.head → WriteCase c n bs (some (n, c'))
  /-- The tail has come to lie on the head. -/
  | emptied (c' : BufferCacheBase) : 0 < n → c.contents.length + n = c.capacity → c.head ≠ 0 →
      c.isFull = false → c'.WF → c'.contents = [] → c'.capacity = c.capacity →
      c'.head = c.head → WriteCase c n bs (some (n, c'))

theorem WF.write_emptied (w : c.WF) (cap : Int) {n : Nat} {bs : List UInt8} (hn : 0 < n)
    (hbs : n ≤ bs.length) (hfill : (c.contents.length + n : Int) = c.capacity)
    (hhead : c.head ≠ 0) (hfull : c.isFull = false) :
    WriteCase c n bs (c.write ⟨cap, n, bs⟩) := by
  obtain ⟨d, l, h, t, rfl, hh, ht, hd, htp⟩ := w.exists_ring
  rw [contents_ring_length hh ht] at hfill
  change _ = (d.length : Int) at hfill
  have hne : t + 1 ≠ h := fun he => by
    rw [(isFull_ring hh ht hd).mpr he] at hfull
    cases hfull
  obtain ⟨d', hw, hlen, -⟩ := write_ring (l := l) hh ht hd hne hn (by omega) hbs
  have hstep : ringStep d.length t n = h := by
    change (h : Int) ≠ 0 at hhead
    unfold ringSize at hfill
    unfold ringStep
    split_ifs at * <;> omega
  rw [hw, hstep]
  refine .emptied _ (by omega) ?_ hhead hfull (wf_ring (by omega) (by omega) (by omega) (by omega))
    ?_ ?_ rfl
  · rw [contents_ring_length hh ht]
    exact hfill
  · rw [← List.length_eq_zero_iff, contents_ring_length (by omega) (by omega), ringSize,
      if_pos (Nat.le_refl h), Nat.sub_self]
  · show (d'.length : Int) = d.length
    rw [hlen]

/-- Everything that a write of a block inside its allocation can do. -/
theorem WF.write_cases (w : c.WF) (cap : Int) {n : Int} {bs : List UInt8} (hbs : n ≤ bs.length) :
    WriteCase c n bs (c.write ⟨cap, n, bs⟩) := by
  by_cases hrej : n ≤ 0 ∨ c.capacity < c.contents.length + n ∨ c.isFull = true
  · have hw : c.write ⟨cap, n, bs⟩ = some (0, c) := by
      apply write_rejected
      rw [w.size_eq]
      dsimp only
      rcases hrej with h | h | h
      · exact Or.inr (Or.inl h)
      · exact Or.inr (Or.inr (by omega))
      · exact Or.inl h
    rw [hw]
    exact .rejected hrej
  · simp only [not_or, Bool.not_eq_true] at hrej
    obtain ⟨hpos, hroom, hfull⟩ := hrej
    obtain ⟨n, rfl⟩ := Int.eq_ofNat_of_zero_le (show 0 ≤ n by omega)
    by_cases hfit : (c.contents.length + n : Int) < c.capacity ∨
        (c.contents.length + n : Int) = c.capacity ∧ c.head = 0
    · obtain ⟨c', hw, w', hc', hcap, hhead⟩ :=
        w.write_eq cap (show 0 < n by omega) (show n ≤ bs.length by omega) hfit
      rw [hw]
      exact .appended c' (by omega) hfit w' hc' hcap hhead
    · have hhead : c.head ≠ 0 := fun h => hfit (Or.inr ⟨by omega, h⟩)
      exact w.write_emptied cap (by omega) (by omega) (by omega) hhead hfull

/-! ## The cache over its lifetime -/

/-- A copy that is made stays inside both blocks. -/
theorem memcpy_bounds {dst src data : List UInt8} {i j n : Int}
    (h : memcpy dst i src j n = some data) :
    0 ≤ n ∧ i + n ≤ dst.length ∧ j + n ≤ src.length := by
  unfold memcpy at h
  split at h
  · rename_i hb
    exact ⟨hb.2.2.1, hb.2.2.2⟩
  · cases h

/-- A write that is defined reads its block only. -/
theorem WF.write_cases_of_some (w : c.WF) {buf : Buffer} {r : Int × BufferCacheBase}
    (h : c.write buf = some r) : WriteCase c buf.length buf.data (some r) := by
  by_cases hlen : buf.length ≤ buf.data.length
  · rw [← h]
    exact w.write_cases buf.capacity hlen
  · have hsize := w.size_eq
    unfold write at h
    split at h
    · rename_i hrej
      cases h
      simp only [Bool.or_eq_true, decide_eq_true_eq] at hrej
      refine .rejected ?_
      rcases hrej with (hfull | hlong) | hneg
      · exact Or.inr (Or.inr hfull)
      · exact Or.inr (Or.inl (by omega))
      · exact Or.inl hneg
    · exfalso
      dsimp only at h
      split at h
      · obtain ⟨data, hcopy, -⟩ := Option.map_eq_some_iff.mp h
        have := memcpy_bounds hcopy
        omega
      · obtain ⟨data, -, h⟩ := Option.bind_eq_some_iff.mp h
        obtain ⟨data', hcopy, -⟩ := Option.map_eq_some_iff.mp h
        have := memcpy_bounds hcopy
        omega

/-- What every write keeps.  A full ring takes nothing. -/
theorem WF.write_keeps (w : c.WF) {buf : Buffer} {r : Int × BufferCacheBase}
    (h : c.write buf = some r) :
    r.2.WF ∧ r.2.capacity = c.capacity ∧ r.2.head = c.head ∧
      ((c.contents.length : Int) = c.capacity → r.2 = c) := by
  cases w.write_cases_of_some h with
  | rejected => exact ⟨w, rfl, rfl, fun _ => rfl⟩
  | appended c' hpos hfit w' _ hcap hhead => exact ⟨w', hcap, hhead, fun _ => by omega⟩
  | emptied c' hpos hfill _ _ w' _ hcap hhead => exact ⟨w', hcap, hhead, fun _ => by omega⟩

/-- A copy out of the ring is not of a negative length. -/
theorem length_nonneg_of_copyOut (w : c.WF) {buf : Buffer} {data : List UInt8}
    (h : c.copyOut buf = some data) : 0 ≤ buf.length := by
  have := w.head_le
  unfold copyOut at h
  split at h
  · have := memcpy_bounds h
    omega
  · omega

/-- What every read keeps.  A read that moves the head moves it off zero. -/
theorem WF.read_keeps (w : c.WF) {buf : Buffer} {r : Int × Buffer × BufferCacheBase}
    (h : c.read buf = some r) :
    r.2.2.WF ∧ r.2.2.capacity = c.capacity ∧ (r.2.2 = c ∨ r.2.2.head ≠ 0) := by
  have hclamp : (c.clampLength buf).length ≤ c.contents.length := by
    rw [← w.size_eq, clampLength]
    split
    · exact Int.le_refl _
    · omega
  unfold read at h
  generalize hbuf : c.clampLength buf = b at h hclamp
  dsimp only at h
  split at h
  · cases h
    exact ⟨w, rfl, Or.inl rfl⟩
  · obtain ⟨data, hcopy, rfl⟩ := Option.map_eq_some_iff.mp h
    obtain ⟨n, hn⟩ := Int.eq_ofNat_of_zero_le (length_nonneg_of_copyOut w hcopy)
    obtain ⟨d, l, hd, t, rfl, hh, ht, hlt, htp⟩ := w.exists_ring
    rw [contents_ring_length hh ht, hn] at hclamp
    have hk : n ≤ ringSize d.length hd t := by omega
    have hring : (ring d l (ringStep d.length hd n) t).WF := by
      refine wf_ring ?_ ht hlt ?_ <;> unfold ringSize ringStep at * <;> split_ifs at * <;> omega
    have hmoved : ({ ring d l hd t with
        head :=
          if (ring d l hd t).buffer.capacity - (ring d l hd t).head ≥ b.length then
            (ring d l hd t).head + b.length
          else b.length - ((ring d l hd t).buffer.capacity - (ring d l hd t).head) } :
          BufferCacheBase) = ring d l (ringStep d.length hd n) t := by
      unfold ring ringStep
      rw [hn]
      dsimp only
      congr 1
      split_ifs <;> omega
    refine ⟨hmoved ▸ hring, rfl, ?_⟩
    by_cases hzero : n = 0
    · left
      rw [hzero, ringStep, Nat.add_zero, if_pos hh] at hmoved
      exact hmoved
    · right
      have hhead := congrArg head hmoved
      dsimp only at hhead ⊢
      rw [hhead]
      show ((ringStep d.length hd n : Nat) : Int) ≠ 0
      unfold ringStep
      split_ifs <;> omega

/-- A use of a cache by the rest of the program. -/
inductive Use
  | call (call : Call)
  | writePackage (buffer : List UInt8) (len : Int)
  | readPackage (head : Header) (buffer : Buffer)

/-- The cache after a use. -/
def use (c : BufferCache) : Use → Option BufferCache
  | .call call => (c.act call).map (·.2)
  | .writePackage buffer len => (c.writePackage buffer len).map (·.2)
  | .readPackage head buffer => (c.readPackage head buffer).map (·.2.2.2)

theorem WF.act_wf (w : c.WF) {call : Call} {r : Answer × BufferCacheBase}
    (h : c.act call = some r) : r.2.WF := by
  cases call with
  | write block =>
    obtain ⟨r', hr, rfl⟩ := Option.map_eq_some_iff.mp h
    exact (w.write_keeps hr).1
  | read n =>
    obtain ⟨r', hr, rfl⟩ := Option.map_eq_some_iff.mp h
    exact (w.read_keeps hr).1
  | haveALook n =>
    obtain ⟨r', -, rfl⟩ := Option.map_eq_some_iff.mp h
    exact w

theorem WF.writePackage_keeps (w : c.WF) {buffer : List UInt8} {len : Int}
    {r : Bool × BufferCache} (h : c.writePackage buffer len = some r) :
    r.2.WF ∧ r.2.capacity = c.capacity ∧ r.2.head = c.head ∧
      ((c.contents.length : Int) = c.capacity → r.2 = c) := by
  obtain ⟨r₁, h₁, h⟩ := Option.bind_eq_some_iff.mp h
  have hk₁ := w.write_keeps h₁
  split at h
  · cases h
    exact hk₁
  · obtain ⟨r₂, h₂, hr⟩ := Option.map_eq_some_iff.mp h
    have hk₂ := hk₁.1.write_keeps h₂
    have hr2 : r.2 = r₂.2 := by
      rw [← hr]
      split <;> rfl
    rw [hr2]
    refine ⟨hk₂.1, hk₂.2.1.trans hk₁.2.1, hk₂.2.2.1.trans hk₁.2.2.1, fun hfull => ?_⟩
    have heq := hk₁.2.2.2 hfull
    rw [heq] at hk₂
    exact hk₂.2.2.2 hfull

theorem WF.readPackage_wf (w : c.WF) {head : Header} {buffer : Buffer}
    {r : Bool × Header × Buffer × BufferCache} (h : c.readPackage head buffer = some r) :
    r.2.2.2.WF := by
  unfold readPackage at h
  split at h
  · cases h
    exact w
  · obtain ⟨look, -, h⟩ := Option.bind_eq_some_iff.mp h
    dsimp only at h
    split at h
    · cases h
      exact w
    · split at h
      · cases h
        exact w
      · obtain ⟨r₁, h₁, h⟩ := Option.bind_eq_some_iff.mp h
        obtain ⟨r₂, h₂, rfl⟩ := Option.map_eq_some_iff.mp h
        exact ((w.read_keeps h₁).1.read_keeps h₂).1

/-- Every cache that the program can get to is a well-formed ring. -/
theorem wf_of_reachable {size : Int} (h : Reachable use (new size) c) : c.WF := by
  refine h.invariant (new_wf size) fun c u c' w _ hs => ?_
  cases u with
  | call call =>
    obtain ⟨r, hr, rfl⟩ := Option.map_eq_some_iff.mp hs
    exact w.act_wf hr
  | writePackage buffer len =>
    obtain ⟨r, hr, rfl⟩ := Option.map_eq_some_iff.mp hs
    exact (w.writePackage_keeps hr).1
  | readPackage head buffer =>
    obtain ⟨r, hr, rfl⟩ := Option.map_eq_some_iff.mp hs
    exact w.readPackage_wf hr

/-! ## All or nothing -/

/-- The header of a package of `len` bytes. -/
def packageHeader (len : Nat) : List UInt8 := Header.bytes ⟨toInt32 MAGIC, toInt32 len⟩

/-- There is room for the header and `len` bytes, and not only just. -/
def Fits (c : BufferCache) (len : Int) : Prop :=
  0 < len ∧ (c.size + 8 + len < c.capacity ∨ c.size + 8 + len = c.capacity ∧ c.head = 0)

instance (c : BufferCache) (len : Int) : Decidable (c.Fits len) :=
  inferInstanceAs (Decidable (_ ∧ _))

/-- The property: what `write_package` does to the contents follows from its
answer. -/
def AllOrNothing (c : BufferCache) (buffer : List UInt8) (len : Nat) : Prop :=
  ∃ r ∈ c.writePackage buffer len,
    r.2.contents = if r.1 then c.contents ++ (packageHeader len ++ buffer.take len) else c.contents

instance (c : BufferCache) (buffer : List UInt8) (len : Nat) :
    Decidable (c.AllOrNothing buffer len) :=
  inferInstanceAs (Decidable (∃ r ∈ _, _))

/-- The condition.  The header does not fit; or the whole frame does; or the
ring has room for a header only, is empty, and loses the header at once. -/
def Whole (c : BufferCache) (len : Int) : Prop :=
  c.capacity - c.size < 8 ∨ c.Fits len ∨
    c.capacity = 8 ∧ c.size = 0 ∧ c.head ≠ 0 ∧ (len ≤ 0 ∨ 8 < len)

instance (c : BufferCache) (len : Int) : Decidable (c.Whole len) :=
  inferInstanceAs (Decidable (_ ∨ _))

/-- The outcomes of a `write_package`. -/
inductive PackageCase (c : BufferCache) (buffer : List UInt8) (len : Nat) :
    Option (Bool × BufferCache) → Prop
  | refused : c.capacity - c.size < 8 → PackageCase c buffer len (some (false, c))
  | whole (c' : BufferCache) : c.Fits (toInt32 len) → c'.WF →
      c'.contents = c.contents ++ (packageHeader len ++ buffer.take len) →
      c'.capacity = c.capacity → c'.head = c.head → PackageCase c buffer len (some (true, c'))
  /-- The payload is refused behind its header. -/
  | torn (c' : BufferCache) : 8 ≤ c.capacity - c.size → ¬ c.Fits (toInt32 len) →
      (c.size + 8 = c.capacity → c.head = 0) → c'.contents = c.contents ++ packageHeader len →
      PackageCase c buffer len (some (false, c'))
  /-- The payload empties the ring. -/
  | payloadEmpties (c' : BufferCache) : 0 < toInt32 len →
      c.size + 8 + toInt32 len = c.capacity → c.head ≠ 0 → c'.contents = [] →
      PackageCase c buffer len (some (true, c'))
  /-- The header empties the ring, and the payload is put behind nothing, or
  refused. -/
  | headerEmpties (b : Bool) (c' : BufferCache) : c.size + 8 = c.capacity → c.head ≠ 0 →
      (b = true ↔ 0 < toInt32 len ∧ toInt32 len ≤ c.capacity) →
      c'.contents.length ≤ len → (b = false → c'.contents = []) →
      PackageCase c buffer len (some (b, c'))

theorem toInt32_le (len : Nat) : toInt32 len ≤ len := by
  unfold toInt32
  split_ifs <;> omega

theorem toInt32_toNat {len : Nat} (hlen : len < 4294967296) (h : 0 < toInt32 len) :
    (toInt32 len).toNat = len := by
  unfold toInt32 at *
  split_ifs at * <;> omega

/-- The second write, when the header went behind the contents. -/
theorem payload_cases {c c₁ : BufferCache} (w : c.WF) {buffer : List UInt8} {len : Nat}
    (hlen : len < 4294967296) (hbuf : len ≤ buffer.length) (w₁ : c₁.WF)
    (hfit : c.size + 8 < c.capacity ∨ c.size + 8 = c.capacity ∧ c.head = 0)
    (hc₁ : c₁.contents = c.contents ++ packageHeader len) (hcap₁ : c₁.capacity = c.capacity)
    (hhead₁ : c₁.head = c.head) :
    PackageCase c buffer len ((c₁.write ⟨toInt32 len, toInt32 len, buffer⟩).map fun r =>
      if r.1 = 0 then (false, r.2) else (true, r.2)) := by
  have hsize := w.size_eq
  have hn := toInt32_le len
  have hlen₁ : c₁.contents.length = c.contents.length + 8 := by
    rw [hc₁, List.length_append, packageHeader, Header.bytes_length]
  have hcase := w₁.write_cases (toInt32 len) (show toInt32 len ≤ buffer.length by omega)
  generalize c₁.write ⟨toInt32 len, toInt32 len, buffer⟩ = o at hcase
  cases hcase with
  | rejected h =>
    refine .torn c₁ (by omega) (fun hwhole => ?_) (by omega) hc₁
    obtain ⟨hpos, hroom⟩ := hwhole
    rcases h with h | h | h
    · omega
    · omega
    · have hfree := w₁.free_of_isFull h
      omega
  | appended c₂ hpos hfit₂ w₂ hc₂ hcap₂ hhead₂ =>
    rw [Option.map_some, if_neg (by dsimp only; omega)]
    refine .whole c₂ ⟨hpos, by omega⟩ w₂ ?_ (hcap₂.trans hcap₁) (hhead₂.trans hhead₁)
    rw [hc₂, hc₁, toInt32_toNat hlen hpos, List.append_assoc]
  | emptied c₂ hpos hfill hhead _ w₂ hc₂ =>
    rw [Option.map_some, if_neg (by dsimp only; omega)]
    exact .payloadEmpties c₂ hpos (by omega) (hhead₁ ▸ hhead) hc₂

/-- The second write, when the header made the ring look empty. -/
theorem payload_cases_of_empty {c c₁ : BufferCache} {buffer : List UInt8} {len : Nat}
    (hlen : len < 4294967296) (hbuf : len ≤ buffer.length) (w₁ : c₁.WF)
    (hfill : c.size + 8 = c.capacity) (hhead : c.head ≠ 0) (hsize : 0 ≤ c.size)
    (hc₁ : c₁.contents = []) (hcap₁ : c₁.capacity = c.capacity) :
    PackageCase c buffer len ((c₁.write ⟨toInt32 len, toInt32 len, buffer⟩).map fun r =>
      if r.1 = 0 then (false, r.2) else (true, r.2)) := by
  have hn := toInt32_le len
  have hlen₁ : c₁.contents.length = 0 := by rw [hc₁, List.length_nil]
  have hcase := w₁.write_cases (toInt32 len) (show toInt32 len ≤ buffer.length by omega)
  generalize c₁.write ⟨toInt32 len, toInt32 len, buffer⟩ = o at hcase
  cases hcase with
  | rejected h =>
    refine .headerEmpties false c₁ hfill hhead ⟨nofun, fun hb => ?_⟩ (by omega)
      fun _ => hc₁
    rcases h with h | h | h
    · omega
    · omega
    · have hfree := (w₁.free_of_isFull h).1
      omega
  | appended c₂ hpos hfit₂ w₂ hc₂ =>
    rw [Option.map_some, if_neg (by dsimp only; omega)]
    refine .headerEmpties true c₂ hfill hhead ⟨fun _ => ⟨hpos, by omega⟩, fun _ => rfl⟩ ?_
      fun hb => by cases hb
    rw [hc₂, hc₁, toInt32_toNat hlen hpos, List.nil_append, List.length_take]
    exact Nat.min_le_left _ _
  | emptied c₂ hpos hfill₂ _ _ w₂ hc₂ =>
    rw [Option.map_some, if_neg (by dsimp only; omega)]
    exact .headerEmpties true c₂ hfill hhead ⟨fun _ => ⟨hpos, by omega⟩, fun _ => rfl⟩
      (by rw [hc₂]; exact Nat.zero_le _) fun hb => by cases hb

/-- Everything that `write_package` can do with a payload of `len` bytes. -/
theorem WF.package_cases {c : BufferCache} (w : c.WF) {buffer : List UInt8} {len : Nat}
    (hlen : len < 4294967296) (hbuf : len ≤ buffer.length) :
    PackageCase c buffer len (c.writePackage buffer len) := by
  have hsize := w.size_eq
  have hheader : (8 : Int) ≤ (packageHeader len).length := by
    rw [packageHeader, Header.bytes_length]
    omega
  have hcase := w.write_cases sizeofHeader hheader
  unfold writePackage
  change PackageCase c buffer len
    (Option.bind (c.write ⟨sizeofHeader, 8, packageHeader len⟩) _)
  generalize hw : c.write ⟨sizeofHeader, 8, packageHeader len⟩ = o at hcase
  cases hcase with
  | rejected h =>
    refine .refused ?_
    rcases h with h | h | h
    · omega
    · omega
    · have := (w.free_of_isFull h).1
      omega
  | appended c₁ _ hfit w₁ hc₁ hcap₁ hhead₁ =>
    rw [Option.bind_some, if_neg (show (8 : Int) ≠ 0 by decide)]
    rw [List.take_of_length_le (by rw [packageHeader, Header.bytes_length]; decide)] at hc₁
    exact payload_cases w hlen hbuf w₁ (by omega) hc₁ hcap₁ hhead₁
  | emptied c₁ _ hfill hhead _ w₁ hc₁ hcap₁ hhead₁ =>
    rw [Option.bind_some, if_neg (show (8 : Int) ≠ 0 by decide)]
    exact payload_cases_of_empty hlen hbuf w₁ (by omega) hhead (by omega) hc₁ hcap₁

/-- A package goes in whole, or leaves the contents alone, exactly under the
condition. -/
theorem WF.allOrNothing_iff_whole {c : BufferCache} (w : c.WF) {buffer : List UInt8} {len : Nat}
    (hlen : len < 4294967296) (hbuf : len ≤ buffer.length) :
    c.AllOrNothing buffer len ↔ c.Whole (toInt32 len) := by
  have hsize := w.size_eq
  have hheader : (packageHeader len).length = 8 := by rw [packageHeader, Header.bytes_length]
  have hcase := w.package_cases hlen hbuf
  unfold AllOrNothing
  generalize c.writePackage buffer len = o at hcase
  cases hcase with
  | refused hfree => simp [Whole, hfree]
  | whole c' hfits _ hc' =>
    simp only [Option.mem_some_iff, exists_eq_left', if_true]
    exact iff_of_true hc' (Or.inr (Or.inl hfits))
  | torn c' hfree hfits hhead hc' =>
    simp only [Option.mem_some_iff, exists_eq_left', Bool.false_eq_true, if_false]
    refine iff_of_false (fun he => ?_) ?_
    · have := congrArg List.length (hc'.symm.trans he)
      rw [List.length_append] at this
      omega
    · rintro (h | h | h)
      · omega
      · exact hfits h
      · omega
  | payloadEmpties c' hpos hfill hhead hc' =>
    simp only [Option.mem_some_iff, exists_eq_left', if_true]
    refine iff_of_false (fun he => ?_) ?_
    · have := congrArg List.length (hc'.symm.trans he)
      rw [List.length_append, List.length_append, List.length_nil] at this
      omega
    · rintro (h | ⟨-, h⟩ | h) <;> omega
  | headerEmpties b c' hfill hhead hb hle hnil =>
    simp only [Option.mem_some_iff, exists_eq_left']
    cases b with
    | true =>
      have hpos := hb.mp rfl
      refine iff_of_false (fun he => ?_) ?_
      · have := congrArg List.length he
        rw [if_pos rfl, List.length_append, List.length_append, List.length_take] at this
        omega
      · rintro (h | ⟨-, h⟩ | h) <;> omega
    | false =>
      rw [hnil rfl, if_neg Bool.false_ne_true]
      have hlong : ¬ (0 < toInt32 len ∧ toInt32 len ≤ c.capacity) := fun h => by
        cases hb.mpr h
      constructor
      · intro he
        rw [← he, List.length_nil] at hsize
        refine Or.inr (Or.inr ⟨by omega, by omega, hhead, by omega⟩)
      · rintro (h | ⟨hpos, h⟩ | h)
        · omega
        · omega
        · exact (List.eq_nil_of_length_eq_zero (by omega)).symm

/-- For every cache that the program can get to, every payload and every
length: `write_package` is all or nothing exactly under the condition. -/
theorem allOrNothing_iff (size : Int) (h : Reachable use (new size) c) (buffer : List UInt8)
    (len : Nat) (hlen : len < 4294967296) (hbuf : len ≤ buffer.length) :
    c.AllOrNothing buffer len ↔ c.Whole (toInt32 len) :=
  (wf_of_reachable h).allOrNothing_iff_whole hlen hbuf

/-- After one package has come and gone. -/
theorem allOrNothing_iff_second_package :
    ∃ c : BufferCache, (c.head = 11 ∧ c.Whole 3) ∧ c.AllOrNothing [1, 2, 3] 3 := by
  obtain ⟨c, hc, hP⟩ : ∃ c, Reachable use (new 32) c ∧ (c.head = 11 ∧ c.Whole 3) :=
    exists_reachable_of_run [.writePackage [7, 8, 9] 3, .call (.read 11)] (by decide +kernel)
  exact ⟨c, hP, (allOrNothing_iff 32 hc [1, 2, 3] 3 (by decide) (by decide)).mpr hP.2⟩

/-- A payload that is too long leaves its header behind. -/
theorem rejected_package_leaves_header :
    ∃ c, Reachable use (new 16) c ∧ ¬ c.AllOrNothing [1, 2, 3, 4, 5, 6, 7, 8, 9] 9 :=
  exists_reachable_of_run [] (by decide +kernel)

end BufferCacheBase

end CppRpc
