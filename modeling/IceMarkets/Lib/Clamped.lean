import Mathlib.Algebra.Order.Group.Defs
import Mathlib.Algebra.BigOperators.Group.List.Basic
import Mathlib.Algebra.Order.Group.MinMax
import Mathlib.Tactic.Abel

/-!
# IceMarkets.Lib.Clamped

Running totals that are not let below zero.

A clamped total differs from the plain one by how far the plain running total goes below
zero (`foldl_clamp`). So it depends on the order of its changes only through the lowest
point of the plain running total.
-/

namespace Clamped

variable {G : Type*} [AddCommGroup G] [LinearOrder G]

/-- One change of a clamped total. -/
def clamp (x d : G) : G := max 0 (x + d)

/-- The lowest value of a plain running total, its start included. -/
def lowest : G → List G → G
  | x, [] => x
  | x, d :: ds => min x (lowest (x + d) ds)

/-- How far below zero a plain running total goes. -/
def depth (x : G) (ds : List G) : G := max 0 (-lowest x ds)

theorem lowest_le_start (x : G) (ds : List G) : lowest x ds ≤ x := by
  cases ds with
  | nil => exact le_refl x
  | cons d ds => exact min_le_left _ _

theorem lowest_le_total (x : G) (ds : List G) : lowest x ds ≤ x + ds.sum := by
  induction ds generalizing x with
  | nil => simp [lowest]
  | cons d ds ih =>
      rw [List.sum_cons, ← add_assoc]
      exact (min_le_right _ _).trans (ih (x + d))

variable [IsOrderedAddMonoid G]

theorem lowest_add (x y : G) (ds : List G) : lowest (x + y) ds = lowest x ds + y := by
  induction ds generalizing x with
  | nil => rfl
  | cons d ds ih =>
      rw [lowest, lowest, add_right_comm, ih, min_add_add_right]

/-- A clamped total is the plain one and the depth it went to below zero. -/
theorem foldl_clamp {x : G} (hx : 0 ≤ x) (ds : List G) :
    ds.foldl clamp x = x + ds.sum + depth x ds := by
  unfold depth
  induction ds generalizing x with
  | nil => simp [lowest, hx]
  | cons d ds ih =>
      rw [List.foldl_cons, List.sum_cons, lowest]
      by_cases hd : 0 ≤ x + d
      · have hclamp : clamp x d = x + d := max_eq_right hd
        have hdepth : max 0 (-min x (lowest (x + d) ds)) = max 0 (-lowest (x + d) ds) := by
          rw [← max_neg_neg, ← max_assoc, max_eq_left (neg_nonpos.mpr hx)]
        rw [hclamp, ih hd, hdepth, ← add_assoc]
      · -- from zero the rest runs as from the total, shifted by what was clamped
        have hneg : x + d < 0 := not_le.mp hd
        have hclamp : clamp x d = 0 := max_eq_left hneg.le
        have hshift : lowest (x + d) ds = lowest 0 ds + (x + d) := by
          rw [← lowest_add, zero_add]
        have h0 : lowest 0 ds ≤ 0 := lowest_le_start 0 ds
        have hlow : lowest 0 ds + (x + d) ≤ x := by
          calc lowest 0 ds + (x + d) ≤ 0 + 0 := add_le_add h0 hneg.le
            _ = 0 := add_zero 0
            _ ≤ x := hx
        have hneg' : 0 ≤ -(lowest 0 ds + (x + d)) := by
          rw [neg_nonneg]
          calc lowest 0 ds + (x + d) ≤ 0 + 0 := add_le_add h0 hneg.le
            _ = 0 := add_zero 0
        rw [hclamp, ih le_rfl, hshift, min_eq_right hlow, max_eq_right (neg_nonneg.mpr h0),
          max_eq_right hneg', zero_add, neg_add]
        abel

/-- A running total that stays above zero has no depth. -/
theorem depth_eq_zero_iff {x : G} {ds : List G} : depth x ds = 0 ↔ 0 ≤ lowest x ds := by
  unfold depth
  rw [max_eq_left_iff, Left.neg_nonpos_iff]

/-- A running total that ends below zero goes below by its lowest value. -/
theorem depth_of_neg {x : G} {ds : List G} (h : x + ds.sum < 0) : depth x ds = -lowest x ds :=
  max_eq_right (neg_nonneg.mpr ((lowest_le_total x ds).trans h.le))

end Clamped
