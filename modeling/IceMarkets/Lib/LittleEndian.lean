import Mathlib.Algebra.Order.Ring.Nat
import Mathlib.Data.Nat.Init

/-!
# IceMarkets.Lib.LittleEndian

Numbers as bytes, the lowest first. A number below `256 ^ n` is read back from its `n`
bytes (`value_digits`), which are quotients of it (`digits_eq_map`).
-/

namespace LittleEndian

/-- The number that bytes stand for. -/
def value : List UInt8 → Nat
  | [] => 0
  | b :: bytes => b.toNat + 256 * value bytes

/-- The lowest `n` bytes of a number. -/
def digits : Nat → Nat → List UInt8
  | 0, _ => []
  | n + 1, v => UInt8.ofNat v :: digits n (v / 256)

theorem length_digits (n v : Nat) : (digits n v).length = n := by
  induction n generalizing v with
  | zero => rfl
  | succ n ih => exact congrArg (· + 1) (ih _)

/-- Numbers come back from their bytes. -/
theorem value_digits {n v : Nat} (h : v < 256 ^ n) : value (digits n v) = v := by
  induction n generalizing v with
  | zero =>
      rw [Nat.pow_zero] at h
      simp only [digits, value]
      omega
  | succ n ih =>
      have hdiv : v / 256 < 256 ^ n := by
        rw [Nat.pow_succ] at h
        exact Nat.div_lt_of_lt_mul (by omega)
      rw [digits, value, ih hdiv, UInt8.toNat_ofNat']
      omega

theorem digits_injective {n v v' : Nat} (hv : v < 256 ^ n) (hv' : v' < 256 ^ n)
    (h : digits n v = digits n v') : v = v' := by
  rw [← value_digits hv, h, value_digits hv']

/-- Bit `z` is in byte `z / 8`. -/
theorem testBit_value (bytes : List UInt8) (z : Nat) :
    (value bytes).testBit z = (bytes.getD (z / 8) 0).toNat.testBit (z % 8) := by
  induction bytes generalizing z with
  | nil => simp [value]
  | cons b bytes ih =>
      have hb : b.toNat < 2 ^ 8 := b.toNat_lt
      rw [value, Nat.add_comm, show 256 = 2 ^ 8 from rfl, Nat.testBit_two_pow_mul_add _ hb]
      split_ifs with hz
      · rw [Nat.div_eq_of_lt hz, Nat.mod_eq_of_lt hz]
        rfl
      · have hdiv : z / 8 = (z - 8) / 8 + 1 := by omega
        have hmod : z % 8 = (z - 8) % 8 := by omega
        rw [ih, hdiv, hmod]
        rfl

/-- Each byte is a quotient of the number. -/
theorem digits_eq_map (n v : Nat) :
    digits n v = (List.range n).map fun i => UInt8.ofNat (v / 256 ^ i) := by
  induction n generalizing v with
  | zero => rfl
  | succ n ih =>
      rw [digits, ih, List.range_succ_eq_map, List.map_cons, Nat.pow_zero, Nat.div_one,
        List.map_map]
      congr 1
      refine List.map_congr_left fun i _ => ?_
      rw [Nat.div_div_eq_div_mul, Function.comp_apply, Nat.succ_eq_add_one, Nat.pow_succ']

end LittleEndian
