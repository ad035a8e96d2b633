import Mathlib.Algebra.Order.Group.Unbundled.Int
import Mathlib.Data.Nat.Log
import Mathlib.Tactic.Linarith

/-!
# IceMarkets.Lib.JsNumber

Integers as JavaScript numbers: `toNumber` is `Number(x)` of a bigint, and the result
of an operation on numbers whose exact value is the integer `x`. A number has 53 bits,
so an integer up to `2^53` is exact, and a larger one goes to the nearest multiple of a
power of two, the even one of two.
-/

namespace JsNumber

/-- `2^53`, the last integer below which all are numbers. -/
def safe : Int := 2 ^ 53

/-- A natural number to the nearest with 53 significant bits, ties to even. -/
def roundNat (n : Nat) : Nat :=
  let ulp := 2 ^ (Nat.log2 n - 52)
  let q := n / ulp
  let r := n % ulp
  if 2 * r < ulp ∨ (2 * r = ulp ∧ q % 2 = 0) then q * ulp else (q + 1) * ulp

/-- `Number(x)`. -/
def toNumber (x : Int) : Int := if 0 ≤ x then roundNat x.toNat else -roundNat (-x).toNat

/-- Up to 53 bits nothing is rounded. -/
theorem roundNat_of_lt {n : Nat} (h : n < 2 ^ 53) : roundNat n = n := by
  have hlog : Nat.log2 n - 52 = 0 := by
    by_cases h0 : n = 0
    · simp [h0]
    · have hlt := (Nat.log2_lt h0).mpr h
      omega
  unfold roundNat
  rw [hlog]
  simp [Nat.mod_one]

theorem roundNat_of_le {n : Nat} (h : n ≤ 2 ^ 53) : roundNat n = n := by
  rcases Nat.lt_or_eq_of_le h with h | rfl
  · exact roundNat_of_lt h
  · decide

/-- Rounding does not fall below a number of 53 bits. -/
theorem le_roundNat {n : Nat} (h : 2 ^ 53 ≤ n) : 2 ^ 53 ≤ roundNat n := by
  have hne : n ≠ 0 := by
    intro h0
    simp [h0] at h
  have hlog : 53 ≤ Nat.log2 n := (Nat.le_log2 hne).mpr h
  have hpow : 2 ^ 52 * 2 ^ (Nat.log2 n - 52) = 2 ^ Nat.log2 n := by
    rw [← Nat.pow_add]
    congr 1
    omega
  have hq : 2 ^ 52 ≤ n / 2 ^ (Nat.log2 n - 52) := by
    rw [Nat.le_div_iff_mul_le (Nat.two_pow_pos _), hpow]
    exact Nat.log2_self_le hne
  have hfloor : 2 ^ 53 ≤ n / 2 ^ (Nat.log2 n - 52) * 2 ^ (Nat.log2 n - 52) :=
    calc 2 ^ 53 ≤ 2 ^ Nat.log2 n := Nat.pow_le_pow_right (by decide) hlog
      _ = 2 ^ 52 * 2 ^ (Nat.log2 n - 52) := hpow.symm
      _ ≤ _ := Nat.mul_le_mul_right _ hq
  unfold roundNat
  dsimp only
  split_ifs
  · exact hfloor
  · exact hfloor.trans (Nat.mul_le_mul_right _ (Nat.le_succ _))

/-- Safe integers are numbers. -/
theorem toNumber_of_abs_le {x : Int} (h : |x| ≤ safe) : toNumber x = x := by
  obtain ⟨hlo, hhi⟩ := abs_le.mp h
  unfold safe at hlo hhi
  unfold toNumber
  split_ifs with hx
  · rw [roundNat_of_le (by omega)]
    omega
  · rw [roundNat_of_le (by omega)]
    omega

/-- A number rounds to the same sign. -/
theorem toNumber_nonpos {x : Int} (h : x ≤ 0) : toNumber x ≤ 0 := by
  unfold toNumber
  split_ifs with hx
  · have hzero : x = 0 := le_antisymm h hx
    subst hzero
    decide
  · omega

/-- What is at least `2^53` stays so. -/
theorem safe_le_toNumber {x : Int} (h : safe ≤ x) : safe ≤ toNumber x := by
  unfold safe at *
  unfold toNumber
  rw [if_pos (by omega)]
  have hround := @le_roundNat x.toNat (by omega)
  omega

end JsNumber
