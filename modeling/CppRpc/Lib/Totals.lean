import Mathlib.Algebra.BigOperators.Group.Finset.Basic
import Mathlib.Algebra.Order.BigOperators.Group.Finset

/-!
# Totals over threads

Each thread of a finite family is in some local state, and each local state has
a weight, a number or a multiset.  `total` adds the weights up.  A step of the
system changes the local state of one thread, and `total_update` says what this
does to the total: the old weight leaves and the new one comes.  Written as an
equation between sums, it serves every commutative monoid, and for numbers it
is what a linear arithmetic procedure needs.
-/

namespace CppRpc

variable {υ α M : Type} [Fintype υ]

/-- The weights of all threads together. -/
def total [AddCommMonoid M] (w : α → M) (f : υ → α) : M := ∑ u, w (f u)

/-- One thread moves. -/
theorem total_update [DecidableEq υ] [AddCommMonoid M] (w : α → M) (f : υ → α) (u : υ) (a : α) :
    total w (Function.update f u a) + w (f u) = total w f + w a := by
  have hrest : ∑ v ∈ Finset.univ.erase u, w (Function.update f u a v) =
      ∑ v ∈ Finset.univ.erase u, w (f v) := by
    apply Finset.sum_congr rfl
    intro v hv
    rw [Function.update_of_ne (Finset.ne_of_mem_erase hv)]
  unfold total
  rw [← Finset.sum_erase_add _ _ (Finset.mem_univ u), ← Finset.sum_erase_add _ (fun v => w (f v))
    (Finset.mem_univ u), hrest, Function.update_self, add_right_comm]

/-- One thread moves, gains `y` and loses `x`. -/
theorem total_update_add [DecidableEq υ] [AddCancelCommMonoid M] {w : α → M} {f : υ → α} {u : υ}
    {a : α} {x y : M} (h : w a + x = w (f u) + y) :
    total w (Function.update f u a) + x = total w f + y := by
  apply add_right_cancel (b := w (f u))
  calc total w (Function.update f u a) + x + w (f u)
      = total w (Function.update f u a) + w (f u) + x := add_right_comm _ _ _
    _ = total w f + (w a + x) := by rw [total_update, add_assoc]
    _ = total w f + y + w (f u) := by rw [h, add_assoc, add_comm y]

/-- Numbers of which one changes. -/
theorem sum_add_of_ne [DecidableEq υ] {f g : υ → Nat} (u : υ) (h : ∀ v, v ≠ u → g v = f v) :
    ∑ v, g v + f u = ∑ v, f v + g u := by
  have hg : g = Function.update f u (g u) := by
    rw [Function.eq_update_iff]
    exact ⟨rfl, fun v hv => h v hv⟩
  calc ∑ v, g v + f u = total id (Function.update f u (g u)) + id (f u) := by
        rw [← hg]
        rfl
    _ = ∑ v, f v + g u := total_update id f u (g u)

theorem total_eq_zero [AddCommMonoid M] {w : α → M} {f : υ → α} (h : ∀ u, w (f u) = 0) :
    total w f = 0 :=
  Finset.sum_eq_zero fun u _ => h u

theorem le_total (w : α → Nat) (f : υ → α) (u : υ) : w (f u) ≤ total w f :=
  Finset.single_le_sum (f := fun v => w (f v)) (fun _ _ => Nat.zero_le _) (Finset.mem_univ u)

theorem total_le_card {w : α → Nat} (h : ∀ a, w a ≤ 1) (f : υ → α) :
    total w f ≤ Fintype.card υ := by
  have hsum := Finset.sum_le_card_nsmul Finset.univ (fun u => w (f u)) 1 fun u _ => h (f u)
  simpa [total] using hsum

theorem total_eq_zero_iff (w : α → Nat) (f : υ → α) : total w f = 0 ↔ ∀ u, w (f u) = 0 := by
  rw [total, Finset.sum_eq_zero_iff]
  simp

/-- A total that is not zero is due to some thread. -/
theorem exists_of_total_pos {w : α → Nat} {f : υ → α} (h : 0 < total w f) : ∃ u, 0 < w (f u) := by
  by_contra hnone
  have hzero : total w f = 0 := by
    rw [total_eq_zero_iff]
    intro u
    by_contra hu
    exact hnone ⟨u, Nat.pos_of_ne_zero hu⟩
  omega

end CppRpc
