import Mathlib.Algebra.Order.Field.Basic
import Mathlib.Algebra.Order.Ring.Pow
import Mathlib.Tactic.Linarith
import Mathlib.Tactic.Ring

/-!
# IceMarkets.Lib.Walk

Walks whose moves are bounded relative to the point they leave.

`Reach d A n x` bounds where a non-negative walk from `A` can be after `n` moves
of relative size `d`: compounding on the way up, and at most the sum of the moves
on the way down. One move of size `m * d` counts as `m` moves, by Bernoulli's
inequality, so the bounds compose however moves are grouped.
-/

namespace Walk

variable {K : Type*} [Field K] [LinearOrder K] [IsStrictOrderedRing K] {d A a x : K} {n m : ℕ}

/-- `x` is within `n` moves of relative size `d` from `A`. -/
structure Reach (d A : K) (n : ℕ) (x : K) : Prop where
  nonneg : 0 ≤ x
  lower : A * (1 - n * d) ≤ x
  upper : x ≤ A * (1 + d) ^ n

/-- A move away from `a` of relative size at most `m * d`. -/
def Move (d : K) (m : ℕ) (a x : K) : Prop := |x - a| ≤ m * d * a

namespace Reach

omit [IsStrictOrderedRing K] in
theorem refl (hA : 0 ≤ A) : Reach d A 0 A where
  nonneg := hA
  lower := by simp
  upper := by simp

theorem mono (hA : 0 ≤ A) (hd : 0 ≤ d) (hnm : n ≤ m) (h : Reach d A n x) : Reach d A m x where
  nonneg := h.nonneg
  lower := by
    have hle : (n : K) * d ≤ m * d := mul_le_mul_of_nonneg_right (Nat.cast_le.mpr hnm) hd
    exact (mul_le_mul_of_nonneg_left (by linarith) hA).trans h.lower
  upper := h.upper.trans
    (mul_le_mul_of_nonneg_left (pow_le_pow_right₀ (by linarith) hnm) hA)

/-- Down `m` more moves: the losses add up at most. -/
theorem lower_add (hA : 0 ≤ A) (hd : 0 ≤ d) (ha : Reach d A n a) (hx : 0 ≤ x)
    (hmove : a * (1 - m * d) ≤ x) : A * (1 - (n + m : ℕ) * d) ≤ x := by
  have hn : 0 ≤ (n : K) * d := mul_nonneg n.cast_nonneg hd
  have hm : 0 ≤ (m : K) * d := mul_nonneg m.cast_nonneg hd
  have hcast : ((n + m : ℕ) : K) * d = n * d + m * d := by rw [Nat.cast_add, add_mul]
  rw [hcast]
  rcases le_total (1 : K) (m * d) with h1 | h1
  · -- a move that may reach zero: the bound is not positive
    have : A * (1 - (n * d + m * d)) ≤ 0 := mul_nonpos_of_nonneg_of_nonpos hA (by linarith)
    exact this.trans hx
  · calc A * (1 - (n * d + m * d)) ≤ A * ((1 - n * d) * (1 - m * d)) := by
          refine mul_le_mul_of_nonneg_left ?_ hA
          have := mul_nonneg hn hm
          linarith [show (1 - n * d) * (1 - m * d)
            = 1 - (n * d + m * d) + n * d * (m * d) by ring]
      _ = A * (1 - n * d) * (1 - m * d) := by ring
      _ ≤ a * (1 - m * d) := mul_le_mul_of_nonneg_right ha.lower (by linarith)
      _ ≤ x := hmove

/-- Up `m` more moves: the gains compound at most. -/
theorem upper_add (hd : 0 ≤ d) (ha : Reach d A n a) (hmove : x ≤ a * (1 + m * d)) :
    x ≤ A * (1 + d) ^ (n + m) := by
  have hbern : 1 + (m : K) * d ≤ (1 + d) ^ m := one_add_mul_le_pow (by linarith) m
  calc x ≤ a * (1 + m * d) := hmove
    _ ≤ a * (1 + d) ^ m := mul_le_mul_of_nonneg_left hbern ha.nonneg
    _ ≤ A * (1 + d) ^ n * (1 + d) ^ m := mul_le_mul_of_nonneg_right ha.upper (by positivity)
    _ = A * (1 + d) ^ (n + m) := by rw [pow_add]; ring

/-- A move of size `m * d` counts as `m` moves. -/
theorem move (hA : 0 ≤ A) (hd : 0 ≤ d) (ha : Reach d A n a) (hx : 0 ≤ x) (h : Move d m a x) :
    Reach d A (n + m) x := by
  obtain ⟨hlow, hupp⟩ := abs_le.mp h
  refine ⟨hx, ha.lower_add hA hd hx ?_, ha.upper_add hd ?_⟩
  · linarith [show a * (1 - m * d) = a - m * d * a by ring]
  · linarith [show a * (1 + m * d) = a + m * d * a by ring]

end Reach

end Walk
