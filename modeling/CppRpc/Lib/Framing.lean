import Mathlib.Data.List.Basic

/-!
# Framed streams

A stream of symbols that carries frames back to back, and a parser that reads
one frame off the front.  `FrameParser` carries the two laws that make such a
parser usable on a stream that arrives in chunks: a frame takes at least one
symbol, and symbols that arrive later do not change a frame already read.
`FrameCodec` adds the encoder.

`parseAll` reads frames until none is complete.  The results are:

* `parseAll_append`: parsing in chunks is parsing the whole stream, so the
  places where the stream is cut do not matter;
* `parseAll_of_encoded`: of a stream of encoded frames, any received prefix
  parses to the first frames, and the unread symbols start the next one;
* `length_lt_of_incomplete`: a front that does not parse is shorter than the
  frame it starts.
-/

namespace CppRpc

/-- A parser of one frame at the front of a stream. -/
structure FrameParser (α β : Type) where
  parse : List α → Option (β × List α)
  shorter : ∀ {xs b r}, parse xs = some (b, r) → r.length < xs.length
  extend : ∀ {xs b r} (ys), parse xs = some (b, r) → parse (xs ++ ys) = some (b, r ++ ys)

namespace FrameParser

variable {α β : Type} (p : FrameParser α β)

/-- At most `fuel` frames off the front, and the symbols after them. -/
def parseUpto : Nat → List α → List β × List α
  | 0, xs => ([], xs)
  | fuel + 1, xs =>
      match p.parse xs with
      | none => ([], xs)
      | some (b, r) => (b :: (parseUpto fuel r).1, (parseUpto fuel r).2)

/-- All the complete frames off the front, and the symbols after them. -/
def parseAll (xs : List α) : List β × List α := p.parseUpto xs.length xs

theorem parse_nil : p.parse [] = none := by
  cases hp : p.parse [] with
  | none => rfl
  | some q =>
    obtain ⟨b, r⟩ := q
    exact absurd (p.shorter hp) (Nat.not_lt_zero _)

/-- Fuel beyond the length of the stream changes nothing, because every frame
takes a symbol. -/
theorem parseUpto_fuel {n m : Nat} {xs : List α} (hn : xs.length ≤ n) (hm : xs.length ≤ m) :
    p.parseUpto n xs = p.parseUpto m xs := by
  have hnil : ∀ k, p.parseUpto k [] = ([], []) := by
    intro k
    cases k with
    | zero => rfl
    | succ k => simp only [parseUpto, p.parse_nil]
  induction n generalizing m xs with
  | zero =>
    obtain rfl : xs = [] := List.eq_nil_of_length_eq_zero (by omega)
    rw [hnil, hnil]
  | succ n ih =>
    cases m with
    | zero =>
      obtain rfl : xs = [] := List.eq_nil_of_length_eq_zero (by omega)
      rw [hnil, hnil]
    | succ m =>
      cases hp : p.parse xs with
      | none => simp only [parseUpto, hp]
      | some q =>
        obtain ⟨b, r⟩ := q
        have hlt := p.shorter hp
        have hfuel : p.parseUpto n r = p.parseUpto m r := ih (by omega) (by omega)
        simp only [parseUpto, hp, hfuel]

theorem parseAll_of_none {xs : List α} (h : p.parse xs = none) : p.parseAll xs = ([], xs) := by
  unfold parseAll
  cases xs.length with
  | zero => rfl
  | succ n => simp only [parseUpto, h]

theorem parseAll_of_some {xs : List α} {b : β} {r : List α} (h : p.parse xs = some (b, r)) :
    p.parseAll xs = (b :: (p.parseAll r).1, (p.parseAll r).2) := by
  have hlt := p.shorter h
  obtain ⟨n, hn⟩ : ∃ n, xs.length = n + 1 := ⟨xs.length - 1, by omega⟩
  have hfuel : p.parseUpto n r = p.parseUpto r.length r :=
    p.parseUpto_fuel (by omega) (Nat.le_refl _)
  simp only [parseAll, hn, parseUpto, h, hfuel]

theorem parse_parseAll_rest (xs : List α) : p.parse (p.parseAll xs).2 = none := by
  induction hn : xs.length using Nat.strongRecOn generalizing xs with
  | ind n ih =>
    cases hp : p.parse xs with
    | none =>
      rw [p.parseAll_of_none hp]
      exact hp
    | some q =>
      obtain ⟨b, r⟩ := q
      rw [p.parseAll_of_some hp]
      exact ih r.length (hn ▸ p.shorter hp) r rfl

/-- The frames of a longer stream start with the frames of its prefix, and the
rest of the prefix goes in front of what arrived after it. -/
theorem parseAll_append (xs ys : List α) :
    p.parseAll (xs ++ ys) =
      ((p.parseAll xs).1 ++ (p.parseAll ((p.parseAll xs).2 ++ ys)).1,
        (p.parseAll ((p.parseAll xs).2 ++ ys)).2) := by
  induction hn : xs.length using Nat.strongRecOn generalizing xs with
  | ind n ih =>
    cases hp : p.parse xs with
    | none => rw [p.parseAll_of_none hp, List.nil_append]
    | some q =>
      obtain ⟨b, r⟩ := q
      rw [p.parseAll_of_some hp, p.parseAll_of_some (p.extend ys hp),
        ih r.length (hn ▸ p.shorter hp) r rfl, List.cons_append]

end FrameParser

/-- A parser together with the encoder of the frames it reads.  `Valid` says
which frames the encoder can write. -/
structure FrameCodec (α β : Type) extends FrameParser α β where
  Valid : β → Prop
  encode : β → List α
  parse_encode : ∀ {b} (r), Valid b → parse (encode b ++ r) = some (b, r)

namespace FrameCodec

variable {α β : Type} (c : FrameCodec α β)

/-- A front that does not parse is shorter than the frame it starts. -/
theorem length_lt_of_incomplete {xs ts us : List α} {b : β} (hb : c.Valid b)
    (hnone : c.parse xs = none) (h : xs ++ ts = c.encode b ++ us) :
    xs.length < (c.encode b).length := by
  by_contra hge
  obtain ⟨vs, hvs⟩ : c.encode b <+: xs :=
    List.prefix_of_prefix_length_le (List.prefix_append _ _) (h ▸ List.prefix_append xs ts)
      (Nat.not_lt.mp hge)
  rw [← hvs, c.parse_encode vs hb] at hnone
  cases hnone

/-- Encoded frames parse to the frames. -/
theorem parseAll_encode {bs : List β} (hbs : ∀ b ∈ bs, c.Valid b) :
    c.parseAll (bs.flatMap c.encode) = (bs, []) := by
  induction bs with
  | nil => exact c.parseAll_of_none c.parse_nil
  | cons b bs ih =>
    have hb : c.Valid b := hbs b (List.mem_cons_self ..)
    rw [List.flatMap_cons, c.parseAll_of_some (c.parse_encode _ hb),
      ih fun b' h' => hbs b' (List.mem_cons_of_mem b h')]

/-- Of a stream of encoded frames, a prefix parses to the first `k` frames,
and its rest is where frame `k` starts. -/
theorem parseAll_of_encoded {xs ts : List α} {bs : List β} (hbs : ∀ b ∈ bs, c.Valid b)
    (h : xs ++ ts = bs.flatMap c.encode) :
    ∃ k, (c.parseAll xs).1 = bs.take k ∧
      (c.parseAll xs).2 ++ ts = (bs.drop k).flatMap c.encode := by
  induction bs generalizing xs with
  | nil =>
    obtain ⟨rfl, rfl⟩ := List.append_eq_nil_iff.mp (show xs ++ ts = [] from h)
    exact ⟨0, rfl, rfl⟩
  | cons b bs ih =>
    cases hp : c.parse xs with
    | none =>
      rw [c.parseAll_of_none hp]
      exact ⟨0, rfl, h⟩
    | some q =>
      obtain ⟨b', r⟩ := q
      have hb : c.Valid b := hbs b (List.mem_cons_self ..)
      have hfront : some (b', r ++ ts) = some (b, bs.flatMap c.encode) := by
        rw [← c.extend ts hp, h, List.flatMap_cons, c.parse_encode _ hb]
      obtain ⟨rfl, hrest⟩ := Prod.mk.inj (Option.some.inj hfront)
      obtain ⟨k, hk, hk'⟩ := ih (fun b h' => hbs b (List.mem_cons_of_mem _ h')) hrest
      refine ⟨k + 1, ?_, ?_⟩
      · rw [c.parseAll_of_some hp, hk, List.take_succ_cons]
      · rw [c.parseAll_of_some hp, hk', List.drop_succ_cons]

end FrameCodec

end CppRpc
