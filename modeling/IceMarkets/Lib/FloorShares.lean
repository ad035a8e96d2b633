import Mathlib.Algebra.BigOperators.Group.List.Basic
import Mathlib.Tactic.Ring
import Mathlib.Tactic.Linarith

/-!
# IceMarkets.Lib.FloorShares

Dividing an amount by weights: each share is the floor of its exact part `F * w / D`.
Floors lose less than one unit each, so what is left of the amount covers the exact
part of whoever gets no floor.
-/

namespace FloorShares

variable (F D : Nat)

/-- The shares of an amount, rounded down. -/
def shares (ws : List Nat) : List Nat := ws.map fun w => F * w / D

@[simp] theorem shares_nil : shares F D [] = [] := rfl

@[simp] theorem shares_cons (w : Nat) (ws : List Nat) :
    shares F D (w :: ws) = F * w / D :: shares F D ws := rfl

/-- Floors never exceed the exact parts. -/
theorem sum_shares_mul_le (ws : List Nat) : (shares F D ws).sum * D ≤ F * ws.sum := by
  induction ws with
  | nil => simp
  | cons w ws ih =>
      have hw := Nat.div_mul_le_self (F * w) D
      simp only [shares_cons, List.sum_cons, Nat.add_mul, Nat.mul_add]
      omega

variable {F D}

/-- Weights of at most the whole never share out more than the amount. -/
theorem sum_shares_le {ws : List Nat} (hD : 0 < D) (h : ws.sum ≤ D) : (shares F D ws).sum ≤ F := by
  have hle := sum_shares_mul_le F D ws
  exact Nat.le_of_mul_le_mul_right (hle.trans (Nat.mul_le_mul_left F h)) hD

/-- The remainder is at least the exact part of the weight left over. -/
theorem mul_le_remainder {ws : List Nat} {w : Nat} (h : ws.sum + w = D) :
    F * w ≤ (F - (shares F D ws).sum) * D := by
  have hle := sum_shares_mul_le F D ws
  have hF : F * D = F * ws.sum + F * w := by rw [← h, Nat.mul_add]
  rw [Nat.sub_mul, hF]
  omega

/-- Floors lose less than one unit for each weight. -/
theorem mul_sum_lt {ws : List Nat} (hD : 0 < D) (hws : ws ≠ []) :
    F * ws.sum < ((shares F D ws).sum + ws.length) * D := by
  have hone (w : Nat) : F * w < (F * w / D + 1) * D := by
    rw [Nat.mul_comm _ D]
    exact Nat.lt_mul_div_succ _ hD
  induction ws with
  | nil => exact absurd rfl hws
  | cons w ws ih =>
      have hw := hone w
      rw [Nat.add_mul, Nat.one_mul] at hw
      simp only [shares_cons, List.sum_cons, List.length_cons, Nat.mul_add,
        Nat.add_mul, Nat.one_mul]
      cases ws with
      | nil => simpa using hw
      | cons w' ws =>
          have := ih (by simp)
          rw [Nat.add_mul] at this
          omega

/-- What the floors leave of an amount is less than one unit for each weight. -/
theorem remainder_lt_length {ws : List Nat} (hpos : 0 < ws.sum) :
    F - (shares F ws.sum ws).sum < ws.length := by
  have hne : ws ≠ [] := fun h => by simp [h] at hpos
  have hlen := List.length_pos_iff.mpr hne
  have hlt := Nat.lt_of_mul_lt_mul_right (mul_sum_lt (F := F) hpos hne)
  omega

end FloorShares
