import IceMarkets.Lib.LittleEndian
import Mathlib.Data.Int.Order.Basic
import Mathlib.Tactic.Ring
import Mathlib.Tactic.Linarith
import Mathlib.Data.Rat.Cast.Order

/-!
# IceMarkets.Machine

The Rust integer operations the on-chain programs use. Unsigned values keep
their width (`UInt64`, `UInt16`, …); a `u128` intermediate is a `Nat` whose
operations check the width themselves, and an `i64` is an `Int` whose saturating
operations clamp to the type's range. Every operation has one specification
lemma, an equivalence about `toNat`, so no later proof unfolds it.
-/

namespace IceMarkets

/-! ### `u64` and `u128` -/

/-- `u64::MAX`. -/
def u64Max : Nat := 2 ^ 64 - 1

/-- `u128::MAX`. -/
def u128Max : Nat := 2 ^ 128 - 1

/-- `u64::try_from(v).ok()` for a `u128` value. -/
def toU64 (v : Nat) : Option UInt64 :=
  if h : v < 2 ^ 64 then some (UInt64.ofNatLT v h) else none

/-- `u64::checked_add`. -/
def checkedAdd (a b : UInt64) : Option UInt64 := toU64 (a.toNat + b.toNat)

/-- `u64::checked_sub`. -/
def checkedSub (a b : UInt64) : Option UInt64 :=
  if b ≤ a then some (a - b) else none

/-- `u64::saturating_sub`. -/
def saturatingSub (a b : UInt64) : UInt64 := if b ≤ a then a - b else 0

/-- `u64::saturating_add`. -/
def saturatingAdd (a b : UInt64) : UInt64 := UInt64.ofNat (min (a.toNat + b.toNat) u64Max)

/-- `u64::abs_diff`. -/
def absDiff (a b : UInt64) : UInt64 := if b ≤ a then a - b else b - a

/-- `u128::checked_mul`. -/
def checkedMul128 (a b : Nat) : Option Nat := if a * b ≤ u128Max then some (a * b) else none

/-- `u128::saturating_add`. -/
def saturatingAdd128 (a b : Nat) : Nat := min (a + b) u128Max

/-- `u128::saturating_mul`. -/
def saturatingMul128 (a b : Nat) : Nat := min (a * b) u128Max

/-- `u128::checked_add`. -/
def checkedAdd128 (a b : Nat) : Option Nat := if a + b ≤ u128Max then some (a + b) else none

@[simp] theorem toU64_eq_some {v : Nat} {x : UInt64} : toU64 v = some x ↔ x.toNat = v := by
  unfold toU64
  constructor
  · intro h
    split at h
    · rw [← Option.some.inj h, UInt64.toNat_ofNatLT]
    · cases h
  · intro hx
    obtain rfl := hx
    rw [dif_pos x.toNat_lt]
    exact congrArg some (UInt64.toNat_inj.mp (UInt64.toNat_ofNatLT))

theorem toU64_eq_none {v : Nat} : toU64 v = none ↔ 2 ^ 64 ≤ v := by
  unfold toU64
  split
  · next h => exact ⟨nofun, fun h' => absurd h (by omega)⟩
  · next h => exact ⟨fun _ => by omega, fun _ => rfl⟩

/-- A value in range always converts. -/
theorem exists_toU64 {v : Nat} (h : v < 2 ^ 64) : ∃ x, toU64 v = some x :=
  ⟨UInt64.ofNatLT v h, by unfold toU64; rw [dif_pos h]⟩

@[simp] theorem checkedAdd_eq_some {a b c : UInt64} :
    checkedAdd a b = some c ↔ c.toNat = a.toNat + b.toNat := toU64_eq_some

theorem checkedAdd_eq_none {a b : UInt64} :
    checkedAdd a b = none ↔ 2 ^ 64 ≤ a.toNat + b.toNat := toU64_eq_none

@[simp] theorem checkedSub_eq_some {a b c : UInt64} :
    checkedSub a b = some c ↔ c.toNat + b.toNat = a.toNat := by
  unfold checkedSub
  split
  · next h =>
      have hs := UInt64.toNat_sub_of_le a b h
      rw [UInt64.le_iff_toNat_le] at h
      rw [Option.some.injEq, ← UInt64.toNat_inj, hs]
      omega
  · next h =>
      rw [UInt64.le_iff_toNat_le] at h
      simp only [reduceCtorEq, false_iff]
      omega

@[simp] theorem saturatingSub_toNat (a b : UInt64) :
    (saturatingSub a b).toNat = a.toNat - b.toNat := by
  unfold saturatingSub
  split
  · next h => exact UInt64.toNat_sub_of_le a b h
  · next h =>
      rw [UInt64.le_iff_toNat_le] at h
      have : a.toNat - b.toNat = 0 := by omega
      rw [this]
      rfl

@[simp] theorem saturatingAdd_toNat (a b : UInt64) :
    (saturatingAdd a b).toNat = min (a.toNat + b.toNat) u64Max := by
  have h : min (a.toNat + b.toNat) u64Max < 2 ^ 64 := by
    unfold u64Max
    omega
  unfold saturatingAdd
  rw [UInt64.toNat_ofNat', Nat.mod_eq_of_lt h]

/-- A difference that does not borrow is the difference of the values. -/
theorem toNat_sub_of_toNat_le {a b : UInt64} (h : b.toNat ≤ a.toNat) :
    (a - b).toNat = a.toNat - b.toNat :=
  UInt64.toNat_sub_of_le a b (UInt64.le_iff_toNat_le.mpr h)

theorem absDiff_toNat (a b : UInt64) :
    (absDiff a b).toNat = (a.toNat - b.toNat) + (b.toNat - a.toNat) := by
  unfold absDiff
  split
  · next h =>
      rw [UInt64.toNat_sub_of_le a b h]
      rw [UInt64.le_iff_toNat_le] at h
      omega
  · next h =>
      rw [UInt64.le_iff_toNat_le] at h
      rw [toNat_sub_of_toNat_le (by omega)]
      omega

/-- `abs_diff` is the distance of the values. -/
theorem cast_absDiff (a b : UInt64) : ((absDiff a b).toNat : ℚ) = |(a.toNat : ℚ) - b.toNat| := by
  rw [absDiff_toNat]
  rcases le_total a.toNat b.toNat with h | h
  · rw [Nat.sub_eq_zero_of_le h, Nat.zero_add, Nat.cast_sub h, abs_of_nonpos, neg_sub]
    exact sub_nonpos.mpr (Nat.cast_le.mpr h)
  · rw [Nat.sub_eq_zero_of_le h, Nat.add_zero, Nat.cast_sub h, abs_of_nonneg]
    exact sub_nonneg.mpr (Nat.cast_le.mpr h)

@[simp] theorem checkedMul128_eq_some {a b c : Nat} :
    checkedMul128 a b = some c ↔ a * b ≤ u128Max ∧ c = a * b := by
  unfold checkedMul128
  split <;> simp_all [eq_comm]

/-- Two `u64` factors never overflow a `u128`. -/
theorem checkedMul128_of_lt {a b : Nat} (ha : a < 2 ^ 64) (hb : b < 2 ^ 64) :
    checkedMul128 a b = some (a * b) := by
  have h : a * b ≤ (2 ^ 64 - 1) * (2 ^ 64 - 1) := Nat.mul_le_mul (by omega) (by omega)
  rw [checkedMul128_eq_some]
  refine ⟨?_, rfl⟩
  unfold u128Max
  omega

/-- A `u128` product times one. -/
theorem checkedMul128_one {a b c : Nat} (h : checkedMul128 a b = some c) :
    checkedMul128 c 1 = some c := by
  obtain ⟨hle, rfl⟩ := checkedMul128_eq_some.mp h
  rw [checkedMul128_eq_some, Nat.mul_one]
  exact ⟨hle, rfl⟩

/-- `u64::to_le_bytes`. -/
def toLeBytes (x : UInt64) : List UInt8 :=
  (List.range 8).map fun i => UInt8.ofNat (x.toNat / 256 ^ i)

theorem toLeBytes_eq_digits (x : UInt64) : toLeBytes x = LittleEndian.digits 8 x.toNat :=
  (LittleEndian.digits_eq_map 8 x.toNat).symm

theorem toLeBytes_length (x : UInt64) : (toLeBytes x).length = 8 := by
  rw [toLeBytes_eq_digits, LittleEndian.length_digits]

/-- The bytes determine the value. -/
theorem toLeBytes_injective {x y : UInt64} (h : toLeBytes x = toLeBytes y) : x = y := by
  rw [toLeBytes_eq_digits, toLeBytes_eq_digits] at h
  exact UInt64.toNat_inj.mp (LittleEndian.digits_injective x.toNat_lt y.toNat_lt h)

/-! ### `i64` -/

/-- `i64::MIN`. -/
def i64Min : Int := -(2 ^ 63)

/-- `i64::MAX`. -/
def i64Max : Int := 2 ^ 63 - 1

/-- The saturating result of an `i64` operation whose exact value is `v`. -/
def clampI64 (v : Int) : Int := max i64Min (min i64Max v)

/-- `i64::saturating_sub`. -/
def satSubI64 (a b : Int) : Int := clampI64 (a - b)

/-- `i64::saturating_add`. -/
def satAddI64 (a b : Int) : Int := clampI64 (a + b)

/-- Saturation does not change a comparison with a bound inside the range. -/
theorem le_clampI64 {c v : Int} (hc : c ≤ i64Max) (hc' : i64Min < c) :
    c ≤ clampI64 v ↔ c ≤ v := by
  unfold clampI64
  omega

/-- A saturated difference exceeds the exact one only below the range. -/
theorem clampI64_le_max (v : Int) : clampI64 v ≤ max i64Min v := by
  unfold clampI64
  omega

end IceMarkets
