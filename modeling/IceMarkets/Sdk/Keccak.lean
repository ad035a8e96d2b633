import IceMarkets.Anchor
import IceMarkets.Lib.LittleEndian
import Mathlib.Data.Int.Bitwise

/-!
# IceMarkets.Sdk.Keccak

The hash of `packages/sdk/src/keccak256.ts`, loop by loop.

A `BigUint64Array` is a vector of 64-bit lanes: what is read from it is a non-negative
bigint, what is stored keeps its low 64 bits. Sums of lanes modulo two stay lanes and
are written on them; `rotl64` and the complement of `chi`, whose intermediate bigints
are wider or negative, are computed on bigints. The scratch arrays are allocated once
and keep what the round before left in them.
-/

namespace IceMarkets.Sdk.Keccak

/-! ### Constants -/

/-- `ROUNDS`. -/
def rounds : Nat := 24

/-- `RATE_BYTES`. -/
def rateBytes : Nat := 136

/-- `RC`. -/
def roundConstants : Vector (BitVec 64) rounds := #v[
  0x0000000000000001, 0x0000000000008082, 0x800000000000808a, 0x8000000080008000,
  0x000000000000808b, 0x0000000080000001, 0x8000000080008081, 0x8000000000008009,
  0x000000000000008a, 0x0000000000000088, 0x0000000080008009, 0x000000008000000a,
  0x000000008000808b, 0x800000000000008b, 0x8000000000008089, 0x8000000000008003,
  0x8000000000008002, 0x8000000000000080, 0x000000000000800a, 0x800000008000000a,
  0x8000000080008081, 0x8000000000008080, 0x0000000080000001, 0x8000000080008008]

/-- `ROT`. -/
def rotations : Vector Nat 25 := #v[
  0, 1, 62, 28, 27, 36, 44, 6, 55, 20, 3, 10, 43, 25, 39, 41, 45, 15, 21, 8, 18, 2, 61, 56, 14]

/-- `MASK64`. -/
def mask64 : Nat := (1 <<< 64) - 1

/-! ### Lanes -/

/-- A `BigUint64Array` of length `n`. -/
abbrev Lanes (n : Nat) := Vector (BitVec 64) n

/-- A fresh array. -/
def zeros (n : Nat) : Lanes n := Vector.replicate n 0

/-- Coordinates are counted modulo five. -/
instance neZero_five : NeZero 5 := ⟨by decide⟩

/-- The index `x + 5 * y`. -/
def lane (x y : Fin 5) : Fin 25 := ⟨x + 5 * y, by omega⟩

def rotl64 (x n : Nat) : Nat :=
  if n = 0 then x &&& mask64 else ((x <<< n) ||| (x >>> (64 - n))) &&& mask64

/-- A rotated lane, stored. -/
def rotated (x : BitVec 64) (n : Nat) : BitVec 64 := BitVec.ofNat 64 (rotl64 x.toNat n)

/-- `a ^ (~b & c)` on bigints, stored. -/
def chiLane (a b c : BitVec 64) : BitVec 64 :=
  BitVec.ofInt 64 (Int.xor a.toNat (Int.land (Int.lnot b.toNat) c.toNat))

/-! ### keccakF1600 -/

/-- The state and the scratch arrays `B`, `C`, `D`. -/
structure Work where
  state : Lanes 25
  B : Lanes 25
  C : Lanes 5
  D : Lanes 5
  deriving DecidableEq, Repr

def theta (w : Work) : Work :=
  let C := (List.finRange 5).foldl (fun (C : Lanes 5) (x : Fin 5) => C.set x
    (w.state[lane x 0] ^^^ w.state[lane x 1] ^^^ w.state[lane x 2] ^^^ w.state[lane x 3] ^^^
      w.state[lane x 4])) w.C
  let D := (List.finRange 5).foldl (fun (D : Lanes 5) (x : Fin 5) => D.set x
    (C[x + 4] ^^^ rotated C[x + 1] 1)) w.D
  let state := (List.finRange 5).foldl (fun (state : Lanes 25) x =>
    (List.finRange 5).foldl (fun (state : Lanes 25) y =>
      state.set (lane x y) (state[lane x y] ^^^ D[x])) state) w.state
  { w with state, C, D }

def rhoPi (w : Work) : Work :=
  { w with
    B := (List.finRange 5).foldl (fun (B : Lanes 25) x =>
      (List.finRange 5).foldl (fun (B : Lanes 25) y =>
        B.set (lane y (2 * x + 3 * y)) (rotated w.state[lane x y] rotations[lane x y])) B) w.B }

def chi (w : Work) : Work :=
  { w with
    state := (List.finRange 5).foldl (fun (state : Lanes 25) x =>
      (List.finRange 5).foldl (fun (state : Lanes 25) y =>
        state.set (lane x y)
          (chiLane w.B[lane x y] w.B[lane (x + 1) y] w.B[lane (x + 2) y])) state) w.state }

def iota (round : Fin rounds) (w : Work) : Work :=
  { w with state := w.state.set 0 (w.state[0] ^^^ roundConstants[round]) }

def keccakF1600 (state : Lanes 25) : Lanes 25 :=
  let w : Work := { state, B := zeros 25, C := zeros 5, D := zeros 5 }
  ((List.finRange rounds).foldl (fun w round => iota round (chi (rhoPi (theta w)))) w).state

/-! ### keccak256 -/

/-- `view.getBigUint64(offset, true)`. -/
def getBigUint64 (view : List UInt8) (offset : Nat) : BitVec 64 :=
  BitVec.ofNat 64 (LittleEndian.value ((List.range 8).map fun i => view.getD (offset + i) 0))

/-- The input in whole blocks, between the domain separator and the last bit. -/
def padded (input : List UInt8) : List UInt8 :=
  let numBlocks := input.length / rateBytes + 1
  let bytes := input ++ List.replicate (numBlocks * rateBytes - input.length) 0
  let bytes := bytes.modify input.length (· ^^^ 0x01)
  bytes.modify (bytes.length - 1) (· ^^^ 0x80)

/-- The loop over the lanes of one block. -/
def absorbBlock (view : List UInt8) (offset : Nat) (state : Lanes 25) : Lanes 25 :=
  (List.finRange 17).foldl (fun (state : Lanes 25) (i : Fin 17) =>
    state.set i.val (state[i.val] ^^^ getBigUint64 view (offset + i * 8))) state

/-- The state after all blocks. -/
def absorbed (input : List UInt8) : Lanes 25 :=
  let bytes := padded input
  (List.range' 0 (bytes.length / rateBytes) rateBytes).foldl
    (fun state offset => keccakF1600 (absorbBlock bytes offset state)) (zeros 25)

/-- The first four lanes, written with `writeBigUInt64LE`. -/
def output (state : Lanes 25) : List UInt8 :=
  (List.finRange 4).flatMap fun (i : Fin 4) => toLeBytes (UInt64.ofBitVec state[i.val])

theorem length_output (state : Lanes 25) : (output state).length = 32 := by
  simp [output, toLeBytes_length, List.finRange, List.ofFn_succ]

def keccak256 (input : List UInt8) : Bytes32 := ⟨output (absorbed input), length_output _⟩

end IceMarkets.Sdk.Keccak
