import Mathlib.MeasureTheory.Integral.IntervalIntegral.Basic

/-!
# IceMarkets.Lib.StepPath

Paths that are constant between their jumps.

A list of jumps, each with a time and a size, makes the path whose value at a time is
the sum of the jumps up to it. Its integral over a window weighs every jump by the
time it is in force there (`integral_value`), whatever the order of the list.
-/

namespace StepPath

open MeasureTheory

variable {ι : Type*} (time size : ι → ℝ)

/-- The path's value: the jumps that happened. -/
noncomputable def value (l : List ι) (t : ℝ) : ℝ :=
  (l.map fun i => if time i ≤ t then size i else 0).sum

/-- How long a jump at `c` is in force in a window. -/
noncomputable def inForce (a b c : ℝ) : ℝ := max 0 (b - max a c)

variable {time size} {l l' : List ι} {a b c d : ℝ}

theorem inForce_of_le (hab : a ≤ b) (hc : c ≤ a) : inForce a b c = b - a := by
  unfold inForce
  rw [max_eq_left hc, max_eq_right (sub_nonneg.mpr hab)]

theorem inForce_of_mem (hac : a ≤ c) (hcb : c ≤ b) : inForce a b c = b - c := by
  unfold inForce
  rw [max_eq_right hac, max_eq_right (sub_nonneg.mpr hcb)]

theorem inForce_of_ge (hc : b ≤ c) : inForce a b c = 0 :=
  max_eq_left (sub_nonpos.mpr (hc.trans (le_max_right a c)))

/-! ### One jump -/

theorem integrable_jump (c d a b : ℝ) :
    IntervalIntegrable (fun t => if c ≤ t then d else 0) volume a b := by
  have hind : (fun t => if c ≤ t then d else 0) = (Set.Ici c).indicator fun _ => d := by
    funext t
    simp [Set.indicator_apply]
  rw [hind, intervalIntegrable_iff]
  exact (integrableOn_const (by simp)).indicator measurableSet_Ici

theorem integral_jump (hab : a ≤ b) (c d : ℝ) :
    ∫ t in a..b, (if c ≤ t then d else 0) = d * inForce a b c := by
  have hafter : ∀ x y, x ≤ y → c ≤ x → ∫ t in x..y, (if c ≤ t then d else 0) = d * (y - x) := by
    intro x y hxy hc
    have hconst : ∫ t in x..y, (if c ≤ t then d else 0) = ∫ _ in x..y, d := by
      refine intervalIntegral.integral_congr_Ioo_of_le hxy fun t ht => ?_
      exact if_pos (hc.trans ht.1.le)
    rw [hconst, intervalIntegral.integral_const, smul_eq_mul, mul_comm]
  have hbefore : ∀ x y, x ≤ y → y ≤ c → ∫ t in x..y, (if c ≤ t then d else 0) = 0 := by
    intro x y hxy hc
    have hzero : ∫ t in x..y, (if c ≤ t then d else 0) = ∫ _ in x..y, (0 : ℝ) := by
      refine intervalIntegral.integral_congr_Ioo_of_le hxy fun t ht => ?_
      exact if_neg (not_le.mpr (ht.2.trans_le hc))
    rw [hzero, intervalIntegral.integral_zero]
  rcases le_total c a with hca | hac
  · rw [hafter a b hab hca, inForce_of_le hab hca]
  rcases le_total b c with hbc | hcb
  · rw [hbefore a b hab hbc, inForce_of_ge hbc, mul_zero]
  · rw [← intervalIntegral.integral_add_adjacent_intervals (integrable_jump c d a c)
      (integrable_jump c d c b), hbefore a c hac le_rfl, hafter c b hcb le_rfl,
      inForce_of_mem hac hcb, zero_add]

/-! ### Paths -/

theorem integrable_value (l : List ι) (a b : ℝ) :
    IntervalIntegrable (value time size l) volume a b := by
  induction l with
  | nil => exact intervalIntegrable_const
  | cons i l ih =>
      have hsplit : value time size (i :: l) =
          fun t => (if time i ≤ t then size i else 0) + value time size l t := by
        funext t
        simp [value]
      rw [hsplit]
      exact (integrable_jump _ _ a b).add ih

/-- The integral of a path weighs each jump by the time it is in force. -/
theorem integral_value (hab : a ≤ b) (l : List ι) :
    ∫ t in a..b, value time size l t = (l.map fun i => size i * inForce a b (time i)).sum := by
  induction l with
  | nil => simp [value]
  | cons i l ih =>
      have hsplit : value time size (i :: l) =
          fun t => (if time i ≤ t then size i else 0) + value time size l t := by
        funext t
        simp [value]
      rw [hsplit, intervalIntegral.integral_add (integrable_jump _ _ a b) (integrable_value l a b),
        integral_jump hab, ih]
      simp

/-- Windows that meet add up. -/
theorem integral_adjacent (l : List ι) (a b c : ℝ) :
    (∫ t in a..b, value time size l t) + (∫ t in b..c, value time size l t) =
      ∫ t in a..c, value time size l t :=
  intervalIntegral.integral_add_adjacent_intervals (integrable_value l a b) (integrable_value l b c)

end StepPath
