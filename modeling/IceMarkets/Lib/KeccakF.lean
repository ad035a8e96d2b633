import IceMarkets.Lib.Sponge
import Mathlib.Data.Finite.Prod
import Mathlib.Data.Nat.Init
import Mathlib.Logic.Function.Iterate
import Mathlib.Tactic.FinCases
import Mathlib.Tactic.Ring

/-!
# IceMarkets.Lib.KeccakF

The permutation Keccak-f on a five by five array of lanes of `w` bits: the step
mappings θ, ρ, π, χ and ι, and rounds of them.

Rotation offsets are the triangular numbers along the walk `(x, y) ↦ (y, 2x + 3y)`,
round constants the output of a linear feedback shift register. A hash is the sponge over it,
with bits counted from the lowest of each byte and of each lane. For a lane width
that divides a power of two every step mapping is injective, so the whole is a
permutation of the states (`permutation_bijective`). The one mapping for which this
takes an argument is θ: what it does to the column parities, squared sixteen-fold
often enough, no longer rotates, and its third power is then the identity.
-/

namespace KeccakF

/-- Lanes by their coordinates. -/
abbrev State (w : Nat) := Fin 5 → Fin 5 → BitVec w

/-! ### Rotation -/

section Rotation

variable {w : Nat}

theorem getLsbD_rotateLeft_mod (x : BitVec w) (n : Nat) {z : Nat} (hz : z < w) :
    (x.rotateLeft n).getLsbD z = x.getLsbD ((z + w - n % w) % w) := by
  have hmod : n % w < w := Nat.mod_lt _ (by omega)
  rw [BitVec.getLsbD_rotateLeft]
  by_cases hlt : z < n % w
  · have hidx : (z + w - n % w) % w = w - n % w + z := by
      rw [show z + w - n % w = w - n % w + z by omega]
      exact Nat.mod_eq_of_lt (by omega)
    rw [decide_eq_true hlt, cond_true, hidx]
  · have hidx : (z + w - n % w) % w = z - n % w := by
      rw [show z + w - n % w = z - n % w + w by omega, Nat.add_mod_right]
      exact Nat.mod_eq_of_lt (by omega)
    rw [decide_eq_false hlt, cond_false, decide_eq_true hz, Bool.true_and, hidx]

theorem rotateLeft_xor (x y : BitVec w) (n : Nat) :
    (x ^^^ y).rotateLeft n = x.rotateLeft n ^^^ y.rotateLeft n := by
  apply BitVec.eq_of_getLsbD_eq
  intro z hz
  simp only [BitVec.getLsbD_xor, getLsbD_rotateLeft_mod _ n hz]

/-- Bit `z` of a rotated lane is the bit `n` places below, around the lane. -/
theorem getLsbD_rotateLeft_add (x : BitVec w) (n : Nat) {z : Nat} (hz : z < w) :
    (x.rotateLeft n).getLsbD ((z + n) % w) = x.getLsbD z := by
  have hw : 0 < w := by omega
  have hn := Nat.mod_lt n hw
  rw [getLsbD_rotateLeft_mod _ n (Nat.mod_lt _ hw)]
  congr 1
  rw [Nat.add_mod, Nat.mod_eq_of_lt hz]
  rcases Nat.lt_or_ge (z + n % w) w with h | h
  · rw [Nat.mod_eq_of_lt h, show z + n % w + w - n % w = z + w by omega, Nat.add_mod_right]
    exact Nat.mod_eq_of_lt hz
  · have hsub : (z + n % w) % w = z + n % w - w := by
      rw [Nat.mod_eq_sub_mod h]
      exact Nat.mod_eq_of_lt (by omega)
    rw [hsub, show z + n % w - w + w - n % w = z by omega]
    exact Nat.mod_eq_of_lt hz

theorem rotateLeft_rotateLeft (x : BitVec w) (m n : Nat) :
    (x.rotateLeft m).rotateLeft n = x.rotateLeft (m + n) := by
  apply BitVec.eq_of_getLsbD_eq
  intro z hz
  have hw : 0 < w := by omega
  -- every bit is that of a bit `m + n` places below
  obtain ⟨z₀, hz₀, rfl⟩ : ∃ z₀ < w, z = (z₀ + (m + n)) % w := by
    refine ⟨(z + (w - (m + n) % w)) % w, Nat.mod_lt _ hw, ?_⟩
    have hmn := Nat.mod_lt (m + n) hw
    have h : (z + (w - (m + n) % w) + (m + n) % w) % w = z := by
      rw [show z + (w - (m + n) % w) + (m + n) % w = z + w by omega, Nat.add_mod_right]
      exact Nat.mod_eq_of_lt hz
    rw [Nat.mod_add_mod, ← Nat.add_mod_mod, h]
  rw [getLsbD_rotateLeft_add x _ hz₀, ← Nat.add_assoc, ← Nat.mod_add_mod (z₀ + m),
    getLsbD_rotateLeft_add _ n (Nat.mod_lt _ hw), getLsbD_rotateLeft_add x m hz₀]

theorem rotateLeft_of_dvd {n : Nat} (h : w ∣ n) (x : BitVec w) : x.rotateLeft n = x := by
  apply BitVec.eq_of_getLsbD_eq
  intro z hz
  rw [getLsbD_rotateLeft_mod _ n hz, Nat.mod_eq_zero_of_dvd h, Nat.sub_zero, Nat.add_mod_right,
    Nat.mod_eq_of_lt hz]

theorem rotateLeft_injective (n : Nat) : Function.Injective fun x : BitVec w => x.rotateLeft n := by
  intro x y h
  apply BitVec.eq_of_getLsbD_eq
  intro z hz
  have hbit := congrArg (fun v : BitVec w => v.getLsbD ((z + n) % w)) h
  simpa only [getLsbD_rotateLeft_add _ n hz] using hbit

end Rotation

/-! ### Step mappings -/

section Steps

variable {w : Nat}

/-- The parity of each column. -/
def parity (A : State w) (x : Fin 5) : BitVec w :=
  A x 0 ^^^ A x 1 ^^^ A x 2 ^^^ A x 3 ^^^ A x 4

/-- θ adds to each lane the parities of the column before and, rotated, of the column
behind. -/
def theta (A : State w) : State w :=
  fun x y => A x y ^^^ (parity A (x - 1) ^^^ (parity A (x + 1)).rotateLeft 1)

/-- ρ rotates each lane by its offset. -/
def rho (offset : Fin 5 → Fin 5 → Nat) (A : State w) : State w :=
  fun x y => (A x y).rotateLeft (offset x y)

/-- π moves the lane at `(x, y)` to `(y, 2x + 3y)`. -/
def pi (A : State w) : State w := fun x y => A (x + 3 * y) x

/-- χ combines each lane with the two behind it in its row; the only step that is not
linear. -/
def chi (A : State w) : State w :=
  fun x y => A x y ^^^ (~~~A (x + 1) y &&& A (x + 2) y)

/-- ι adds the round's constant to the first lane. -/
def iota (rc : BitVec w) (A : State w) : State w :=
  fun x y => if x = 0 ∧ y = 0 then A x y ^^^ rc else A x y

/-! ### Offsets and constants -/

/-- The lanes other than the first, in the order of the walk. -/
def walk : Nat → Fin 5 × Fin 5
  | 0 => (1, 0)
  | t + 1 => ((walk t).2, 2 * (walk t).1 + 3 * (walk t).2)

/-- The `(t + 1)`-th triangular number for the `t`-th lane of the walk; none for the
first lane. -/
def offset (x y : Fin 5) : Nat :=
  match (List.range 24).find? fun t => walk t = (x, y) with
  | some t => (t + 1) * (t + 2) / 2
  | none => 0

/-- One step of the register with feedback polynomial `x⁸ + x⁶ + x⁵ + x⁴ + 1`. -/
def lfsrStep (r : BitVec 8) : BitVec 8 :=
  if r.msb then (r <<< 1) ^^^ 0x71 else r <<< 1

/-- The register's output at time `t`. -/
def lfsrBit (t : Nat) : Bool := (lfsrStep^[t] 1).getLsbD 0

/-- Round `i`'s constant for lanes of `2 ^ l` bits: bit `2 ^ j - 1` is the register's output
at time `j + 7 i`. -/
def roundConstant (l i : Nat) : BitVec w :=
  (List.range (l + 1)).foldl
    (fun rc j => if lfsrBit (j + 7 * i) then rc ||| BitVec.twoPow w (2 ^ j - 1) else rc) 0

def round (rc : BitVec w) (A : State w) : State w := iota rc (chi (pi (rho offset (theta A))))

/-- Keccak-f: `12 + 2 l` rounds. -/
def permutation (l : Nat) (A : State w) : State w :=
  (List.range (12 + 2 * l)).foldl (fun A i => round (roundConstant l i) A) A

end Steps

/-! ### Hashes -/

section Hash

variable {w rate : Nat}

/-- The lane of the given bits. -/
def ofBits (bits : Fin w → Bool) : BitVec w := BitVec.ofNat w (Nat.ofBits bits)

theorem getLsbD_ofBits (bits : Fin w → Bool) {z : Nat} (hz : z < w) :
    (ofBits bits).getLsbD z = bits ⟨z, hz⟩ := by
  unfold ofBits
  rw [BitVec.getLsbD_ofNat, decide_eq_true hz, Bool.true_and, Nat.testBit_ofBits_lt bits z hz]

/-- Bit `k` of a block. -/
def blockBit (block : Vector UInt8 rate) (k : Nat) : Bool :=
  (block[k / 8]?.getD 0).toBitVec.getLsbD (k % 8)

/-- Add a block to the state, the lanes in rows from the first. -/
def addBlock (block : Vector UInt8 rate) (A : State w) : State w :=
  fun x y => A x y ^^^ ofBits fun z : Fin w => blockBit block (w * (x + 5 * y) + z)

/-- Bit `k` of the state. -/
def stateBit (A : State w) (k : Nat) : Bool :=
  (A (Fin.ofNat 5 (k / w)) (Fin.ofNat 5 (k / w / 5))).getLsbD (k % w)

/-- The first `n` bytes of the state. -/
def stateBytes (n : Nat) (A : State w) : List UInt8 :=
  (List.range n).map fun i =>
    UInt8.ofBitVec (ofBits fun j : Fin 8 => stateBit A (8 * i + j))

/-- The `n` bytes of a message's hash, for lanes of `w = 2 ^ l` bits and `n ≤ rate`. -/
def hash (w l rate n : Nat) (message : List UInt8) : List UInt8 :=
  stateBytes n (Sponge.absorb (permutation l) addBlock (fun _ _ => (0 : BitVec w))
    (Sponge.chunks rate (Sponge.pad rate message)))

/-- The bits of a block determine it. -/
theorem blockBit_injective {block block' : Vector UInt8 rate}
    (h : ∀ k < 8 * rate, blockBit block k = blockBit block' k) : block = block' := by
  apply Vector.ext
  intro i hi
  apply UInt8.toBitVec_inj.mp
  apply BitVec.eq_of_getLsbD_eq
  intro j hj
  have hbit := h (8 * i + j) (by omega)
  have hdiv : (8 * i + j) / 8 = i := by omega
  have hmod : (8 * i + j) % 8 = j := by omega
  unfold blockBit at hbit
  rw [hdiv, hmod, Vector.getElem?_eq_getElem hi, Vector.getElem?_eq_getElem hi] at hbit
  exact hbit

/-- A block that fits the state can be read off the state before and after it is added. -/
theorem addBlock_injective (hrate : 8 * rate ≤ 25 * w) {block block' : Vector UInt8 rate}
    {A : State w} (h : addBlock block A = addBlock block' A) : block = block' := by
  apply blockBit_injective
  intro k hk
  have hw : 0 < w := by omega
  have hlane : k / w < 25 := Nat.div_lt_of_lt_mul (by rw [Nat.mul_comm]; omega)
  let x : Fin 5 := ⟨k / w % 5, Nat.mod_lt _ (by omega)⟩
  let y : Fin 5 := ⟨k / w / 5, by omega⟩
  have hidx : w * ((x : Nat) + 5 * y) + k % w = k := by
    have hxy : (x : Nat) + 5 * y = k / w := Nat.mod_add_div _ 5
    rw [hxy]
    exact Nat.div_add_mod k w
  have hxy := (BitVec.xor_right_inj _).mp (congrFun (congrFun h x) y)
  have hbit := congrArg (fun v : BitVec w => v.getLsbD (k % w)) hxy
  simpa only [getLsbD_ofBits _ (Nat.mod_lt k hw), hidx] using hbit

end Hash

/-! ### Permutation -/

section Bijective

variable {w : Nat}

/-- What θ does to the column parities: `spread 1 1`. Columns are added at distance `m`, one
of the two rotated by `n`. -/
def spread (m : Fin 5) (n : Nat) (P : Fin 5 → BitVec w) : Fin 5 → BitVec w :=
  fun x => P x ^^^ (P (x - m) ^^^ (P (x + m)).rotateLeft n)

/-- Equal terms cancel. -/
theorem xor_cancel (a b : BitVec w) : a ^^^ (a ^^^ b) = b := by
  rw [← BitVec.xor_assoc, BitVec.xor_self, BitVec.zero_xor]

/-- Spreading twice is spreading at twice the distance: the mixed terms come in pairs. -/
theorem spread_spread (m : Fin 5) (n : Nat) (P : Fin 5 → BitVec w) :
    spread m n (spread m n P) = spread (m + m) (n + n) P := by
  funext x
  have h₁ : x - m + m = x := by decide +revert
  have h₂ : x + m - m = x := by decide +revert
  have h₃ : x - m - m = x - (m + m) := by decide +revert
  have h₄ : x + m + m = x + (m + m) := by decide +revert
  simp only [spread, h₁, h₂, h₃, h₄, rotateLeft_xor, rotateLeft_rotateLeft]
  ac_nf
  simp only [xor_cancel]

theorem spread_iterate (k : Nat) (m : Fin 5) (n : Nat) (P : Fin 5 → BitVec w) :
    (spread m n)^[2 ^ k] P = spread ((fun m => m + m)^[k] m) (2 ^ k * n) P := by
  induction k generalizing m n P with
  | zero => simp
  | succ k ih =>
      have hfun : (spread m n)^[2] = spread (w := w) (m + m) (n + n) :=
        funext (spread_spread m n)
      rw [pow_succ', Function.iterate_mul, hfun, ih, Function.iterate_succ_apply,
        show 2 ^ k * (n + n) = 2 * 2 ^ k * n by ring]

/-- Four doublings of the distance come back to it. -/
theorem double_iterate (k : Nat) (m : Fin 5) : (fun m => m + m)^[4 * k] m = m := by
  have hfour : (fun m : Fin 5 => m + m)^[4] = id := by
    funext m
    decide +revert
  rw [Function.iterate_mul, hfour, Function.iterate_id, id_eq]

/-- Without a rotation three spreads cancel. -/
theorem spread_cube {n : Nat} (hn : w ∣ n) (P : Fin 5 → BitVec w) :
    spread 1 n (spread 1 n (spread 1 n P)) = P := by
  rw [spread_spread]
  funext x
  have h₁ : x - (1 + 1) - 1 = x + (1 + 1) := by decide +revert
  have h₂ : x - (1 + 1) + 1 = x - 1 := by decide +revert
  have h₃ : x + (1 + 1) - 1 = x + 1 := by decide +revert
  have h₄ : x + (1 + 1) + 1 = x - (1 + 1) := by decide +revert
  simp only [spread, rotateLeft_of_dvd hn, rotateLeft_of_dvd (Nat.dvd_add hn hn), h₁, h₂, h₃, h₄]
  ac_nf
  simp only [BitVec.xor_self, BitVec.xor_zero]

/-- Where the lane width divides a power of two, spreading loses nothing. -/
theorem spread_injective {l : Nat} (hw : w ∣ 2 ^ l) :
    Function.Injective (spread 1 1 : (Fin 5 → BitVec w) → Fin 5 → BitVec w) := by
  have hdvd : w ∣ 2 ^ (4 * l) * 1 := by
    rw [mul_one]
    exact hw.trans (Nat.pow_dvd_pow 2 (by omega))
  have hpow : ∀ P : Fin 5 → BitVec w, (spread 1 1)^[2 ^ (4 * l) * 3] P = P := by
    intro P
    rw [Function.iterate_mul]
    simp only [Function.iterate_succ, Function.iterate_zero, Function.comp_apply, id_eq,
      spread_iterate, double_iterate, spread_cube hdvd]
  have hleft : Function.LeftInverse (spread 1 1)^[2 ^ (4 * l) * 3 - 1]
      (spread 1 1 : (Fin 5 → BitVec w) → Fin 5 → BitVec w) := by
    intro P
    have hpos : 0 < 2 ^ (4 * l) := Nat.pow_pos (by omega)
    have hsucc : 2 ^ (4 * l) * 3 - 1 + 1 = 2 ^ (4 * l) * 3 := by omega
    rw [← Function.iterate_succ_apply, Nat.succ_eq_add_one, hsucc, hpow]
  exact hleft.injective

theorem parity_theta (A : State w) : parity (theta A) = spread 1 1 (parity A) := by
  funext x
  simp only [parity, theta, spread]
  ac_nf
  simp only [xor_cancel]

theorem theta_injective {l : Nat} (hw : w ∣ 2 ^ l) :
    Function.Injective (theta : State w → State w) := by
  intro A B h
  have hparity : parity A = parity B := by
    apply spread_injective hw
    rw [← parity_theta, ← parity_theta, h]
  funext x y
  have hxy := congrFun (congrFun h x) y
  simp only [theta, hparity] at hxy
  exact (BitVec.xor_left_inj _).mp hxy

theorem rho_injective (offset : Fin 5 → Fin 5 → Nat) :
    Function.Injective (rho offset : State w → State w) := by
  intro A B h
  funext x y
  exact rotateLeft_injective _ (congrFun (congrFun h x) y)

theorem pi_injective : Function.Injective (pi : State w → State w) := by
  intro A B h
  funext x y
  have hxy := congrFun (congrFun h y) (2 * x + 3 * y)
  have hx : ∀ x y : Fin 5, y + 3 * (2 * x + 3 * y) = x := by decide
  simpa only [pi, hx] using hxy

/-- On bits χ is a permutation of the rows. -/
theorem chi_row_injective :
    ∀ a b c d e a' b' c' d' e' : Bool,
      (a ^^ (!b && c)) = (a' ^^ (!b' && c')) → (b ^^ (!c && d)) = (b' ^^ (!c' && d')) →
      (c ^^ (!d && e)) = (c' ^^ (!d' && e')) → (d ^^ (!e && a)) = (d' ^^ (!e' && a')) →
      (e ^^ (!a && b)) = (e' ^^ (!a' && b')) →
        a = a' ∧ b = b' ∧ c = c' ∧ d = d' ∧ e = e' := by
  decide

theorem chi_injective : Function.Injective (chi : State w → State w) := by
  intro A B h
  funext x y
  apply BitVec.eq_of_getLsbD_eq
  intro z hz
  have hbit : ∀ x, ((A x y).getLsbD z ^^ (!(A (x + 1) y).getLsbD z && (A (x + 2) y).getLsbD z)) =
      ((B x y).getLsbD z ^^ (!(B (x + 1) y).getLsbD z && (B (x + 2) y).getLsbD z)) := by
    intro x
    have hx := congrArg (fun v : BitVec w => v.getLsbD z) (congrFun (congrFun h x) y)
    simpa only [chi, BitVec.getLsbD_xor, BitVec.getLsbD_and, BitVec.getLsbD_not, hz, decide_true,
      Bool.true_and] using hx
  obtain ⟨h₀, h₁, h₂, h₃, h₄⟩ := chi_row_injective _ _ _ _ _ _ _ _ _ _
    (hbit 0) (hbit 1) (hbit 2) (hbit 3) (hbit 4)
  fin_cases x
  · exact h₀
  · exact h₁
  · exact h₂
  · exact h₃
  · exact h₄

theorem iota_injective (rc : BitVec w) : Function.Injective (iota rc) := by
  intro A B h
  funext x y
  have hxy := congrFun (congrFun h x) y
  simp only [iota] at hxy
  split_ifs at hxy with hfirst
  · exact (BitVec.xor_left_inj _).mp hxy
  · exact hxy

theorem round_injective {l : Nat} (hw : w ∣ 2 ^ l) (rc : BitVec w) :
    Function.Injective (round rc) :=
  (iota_injective rc).comp (chi_injective.comp
    (pi_injective.comp ((rho_injective offset).comp (theta_injective hw))))

theorem permutation_injective {l : Nat} (hw : w ∣ 2 ^ l) :
    Function.Injective (permutation l : State w → State w) := by
  unfold permutation
  generalize List.range (12 + 2 * l) = rounds
  induction rounds with
  | nil => exact Function.injective_id
  | cons i rounds ih => exact ih.comp (round_injective hw _)

/-- Keccak-f permutes the states. -/
theorem permutation_bijective {l : Nat} (hw : w ∣ 2 ^ l) :
    Function.Bijective (permutation l : State w → State w) := by
  have : Finite (BitVec w) := Finite.of_injective BitVec.toFin fun _ _ h => BitVec.toFin_inj.mp h
  exact Finite.injective_iff_bijective.mp (permutation_injective hw)

end Bijective

end KeccakF
