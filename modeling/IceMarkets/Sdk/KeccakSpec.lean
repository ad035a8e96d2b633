import IceMarkets.Sdk.Keccak
import IceMarkets.Lib.Cells
import IceMarkets.Lib.KeccakF

/-!
# IceMarkets.Sdk.KeccakSpec

`keccak256` against Keccak: its loops and tables compute the step mappings, so
`keccakF1600` is Keccak-f on lanes of 64 bits, a permutation, and `keccak256` the sponge
over it with a rate of 136 bytes and 32 bytes of output (`keccak256_eq_hash`).
-/

namespace IceMarkets.Sdk.Keccak

/-! ### Lanes -/

section Lanes

theorem lane_injective : Function.Injective fun p : Fin 5 × Fin 5 => lane p.1 p.2 := by
  decide

theorem exists_lane (k : Fin 25) : ∃ x y, lane x y = k := by
  revert k
  decide

/-- The lanes by their coordinates. -/
def toState (state : Lanes 25) : KeccakF.State 64 := fun x y => state.get (lane x y)

theorem toState_injective : Function.Injective toState := by
  intro s t h
  apply Vector.ext
  intro k hk
  obtain ⟨x, y, hxy⟩ := exists_lane ⟨k, hk⟩
  have hlane := congrFun (congrFun h x) y
  simp only [toState, hxy] at hlane
  exact hlane

/-- Masking keeps the low bits. -/
theorem testBit_mask64 (v : Nat) {z : Nat} (hz : z < 64) :
    (v &&& mask64).testBit z = v.testBit z := by
  have hmask : mask64 = 2 ^ 64 - 1 := by decide
  rw [Nat.testBit_and, hmask, Nat.testBit_two_pow_sub_one, decide_eq_true hz, Bool.and_true]

/-- `rotl64` rotates: what is shifted out at the top comes in at the bottom. -/
theorem rotated_eq (x : BitVec 64) {n : Nat} (hn : n < 64) : rotated x n = x.rotateLeft n := by
  apply BitVec.eq_of_getLsbD_eq
  intro z hz
  rw [KeccakF.getLsbD_rotateLeft_mod x n hz, Nat.mod_eq_of_lt hn]
  unfold rotated
  rw [BitVec.getLsbD_ofNat, decide_eq_true hz, Bool.true_and]
  unfold rotl64
  split_ifs with h0
  · rw [testBit_mask64 _ hz, BitVec.testBit_toNat, h0, Nat.sub_zero, Nat.add_mod_right,
      Nat.mod_eq_of_lt hz]
  · rw [testBit_mask64 _ hz, Nat.testBit_or, Nat.testBit_shiftLeft, Nat.testBit_shiftRight,
      BitVec.testBit_toNat, BitVec.testBit_toNat]
    by_cases hzn : n ≤ z
    · have htop : x.getLsbD (64 - n + z) = false := BitVec.getLsbD_of_ge x _ (by omega)
      rw [htop, Bool.or_false, decide_eq_true hzn, Bool.true_and,
        show (z + 64 - n) % 64 = z - n by omega]
    · rw [decide_eq_false hzn, Bool.false_and, Bool.false_or,
        show (z + 64 - n) % 64 = 64 - n + z by omega]

/-- The complement is a negative bigint, its conjunction with a lane a lane again. -/
theorem chiLane_eq (a b c : BitVec 64) : chiLane a b c = a ^^^ (~~~b &&& c) := by
  have hval : Int.xor a.toNat (Int.land (Int.lnot b.toNat) c.toNat) =
      ((a.toNat ^^^ Nat.ldiff c.toNat b.toNat : Nat) : Int) := rfl
  unfold chiLane
  rw [hval, BitVec.ofInt_natCast]
  apply BitVec.eq_of_getLsbD_eq
  intro z hz
  rw [BitVec.getLsbD_ofNat, decide_eq_true hz, Bool.true_and, Nat.testBit_xor, Nat.testBit_ldiff]
  simp only [BitVec.testBit_toNat, BitVec.getLsbD_xor, BitVec.getLsbD_and, BitVec.getLsbD_not, hz,
    decide_true, Bool.true_and, Bool.and_comm]

end Lanes

/-! ### Step mappings -/

section Steps

/-- A loop over both coordinates, writing a cell for each. -/
theorem getElem_loops {key : Fin 5 × Fin 5 → Fin 25} (hkey : Function.Injective key)
    (f : Fin 5 × Fin 5 → BitVec 64 → BitVec 64) (v : Lanes 25) (x y : Fin 5) :
    ((List.finRange 5).foldl (fun (v : Lanes 25) x => (List.finRange 5).foldl
      (fun (v : Lanes 25) y => v.set (key (x, y)) (f (x, y) v[key (x, y)])) v) v)[key (x, y)] =
      f (x, y) v[key (x, y)] := by
  have hloops := Cells.update_product key f v (List.finRange 5) (List.finRange 5)
  unfold Cells.update at hloops
  rw [hloops]
  refine Cells.getElem_update hkey v ((List.nodup_finRange 5).product (List.nodup_finRange 5)) ?_
  exact List.mem_product.mpr ⟨List.mem_finRange x, List.mem_finRange y⟩

theorem toState_theta (w : Work) : toState (theta w).state = KeccakF.theta (toState w.state) := by
  have hloop : ∀ (f : Fin 5 → BitVec 64 → BitVec 64) (v : Lanes 5) (x : Fin 5),
      (Cells.update id f v (List.finRange 5))[x] = f x v[x] := fun f v x =>
    Cells.getElem_update Function.injective_id v (List.nodup_finRange 5) (List.mem_finRange x)
  have hC : ∀ x : Fin 5, (theta w).C[x] = KeccakF.parity (toState w.state) x :=
    hloop (fun x _ => KeccakF.parity (toState w.state) x) w.C
  have hD : ∀ x : Fin 5, (theta w).D[x] = (theta w).C[x + 4] ^^^ rotated (theta w).C[x + 1] 1 :=
    hloop (fun x _ => (theta w).C[x + 4] ^^^ rotated (theta w).C[x + 1] 1) w.D
  have hstate : ∀ x y, (theta w).state[lane x y] = w.state[lane x y] ^^^ (theta w).D[x] :=
    getElem_loops lane_injective (fun p v => v ^^^ (theta w).D[p.1]) w.state
  have hbefore : ∀ x : Fin 5, x + 4 = x - 1 := by decide
  funext x y
  have hxy := hstate x y
  rw [hD, hC, hC, rotated_eq _ (by omega), hbefore] at hxy
  exact hxy

theorem rotations_eq : ∀ x y, rotations.get (lane x y) = KeccakF.offset x y % 64 := by
  decide +kernel

theorem toState_rhoPi (w : Work) :
    toState (rhoPi w).B = KeccakF.pi (KeccakF.rho KeccakF.offset (toState w.state)) := by
  have hkey : Function.Injective fun p : Fin 5 × Fin 5 => lane p.2 (2 * p.1 + 3 * p.2) := by
    decide
  have hB : ∀ x y, (rhoPi w).B[lane y (2 * x + 3 * y)] =
      rotated w.state[lane x y] rotations[lane x y] :=
    getElem_loops hkey (fun p _ => rotated w.state[lane p.1 p.2] rotations[lane p.1 p.2]) w.B
  -- the lane that is written at `(x, y)`
  have hsource : ∀ x y : Fin 5, 2 * (x + 3 * y) + 3 * x = y := by decide
  funext x y
  have hoffset : ∀ x y, rotations[lane x y] = KeccakF.offset x y % 64 := rotations_eq
  have hxy := hB (x + 3 * y) x
  rw [hoffset, rotated_eq _ (Nat.mod_lt _ (by omega)),
    BitVec.rotateLeft_mod_eq_rotateLeft] at hxy
  simp only [hsource] at hxy
  exact hxy

theorem toState_chi (w : Work) : toState (chi w).state = KeccakF.chi (toState w.B) := by
  have hstate : ∀ x y, (chi w).state[lane x y] =
      chiLane w.B[lane x y] w.B[lane (x + 1) y] w.B[lane (x + 2) y] :=
    getElem_loops lane_injective
      (fun p _ => chiLane w.B[lane p.1 p.2] w.B[lane (p.1 + 1) p.2] w.B[lane (p.1 + 2) p.2]) w.state
  funext x y
  exact (hstate x y).trans (chiLane_eq _ _ _)

theorem roundConstants_eq : ∀ i : Fin rounds, roundConstants.get i = KeccakF.roundConstant 6 i := by
  decide +kernel

theorem toState_iota (i : Fin rounds) (w : Work) :
    toState (iota i w).state = KeccakF.iota (KeccakF.roundConstant 6 i) (toState w.state) := by
  funext x y
  unfold toState iota KeccakF.iota
  rw [← roundConstants_eq]
  by_cases h : x = 0 ∧ y = 0
  · obtain ⟨rfl, rfl⟩ := h
    exact Vector.getElem_set_self (by omega)
  · rw [if_neg h]
    refine Vector.getElem_set_ne (by omega) (lane x y).isLt ?_
    intro hzero
    exact h (Prod.ext_iff.mp (@lane_injective (x, y) (0, 0) (Fin.ext hzero.symm)))

/-- One round of the loop. -/
theorem toState_round (i : Fin rounds) (w : Work) :
    toState (iota i (chi (rhoPi (theta w)))).state =
      KeccakF.round (KeccakF.roundConstant 6 i) (toState w.state) := by
  rw [toState_iota, toState_chi, toState_rhoPi, toState_theta]
  rfl

/-- The loop over the rounds, whatever the scratch arrays hold before. -/
theorem toState_rounds (l : List (Fin rounds)) (w : Work) :
    toState (l.foldl (fun w i => iota i (chi (rhoPi (theta w)))) w).state =
      (l.map Fin.val).foldl (fun A i => KeccakF.round (KeccakF.roundConstant 6 i) A)
        (toState w.state) := by
  induction l generalizing w with
  | nil => rfl
  | cons i l ih =>
      rw [List.foldl_cons, ih, toState_round, List.map_cons, List.foldl_cons]

theorem toState_keccakF1600 (state : Lanes 25) :
    toState (keccakF1600 state) = KeccakF.permutation 6 (toState state) := by
  have hrounds : (List.finRange rounds).map Fin.val = List.range (12 + 2 * 6) := by decide
  unfold keccakF1600 KeccakF.permutation
  rw [toState_rounds, hrounds]

theorem toState_bijective : Function.Bijective toState := by
  refine ⟨toState_injective, fun A => ?_⟩
  refine ⟨Vector.ofFn fun k => A (Fin.ofNat 5 k) (Fin.ofNat 5 (k / 5)), ?_⟩
  have hx : ∀ x y : Fin 5, Fin.ofNat 5 (lane x y) = x := by decide
  have hy : ∀ x y : Fin 5, Fin.ofNat 5 ((lane x y : Nat) / 5) = y := by decide
  funext x y
  have hlane : (Vector.ofFn fun k : Fin 25 => A (Fin.ofNat 5 k) (Fin.ofNat 5 (k / 5)))[lane x y] =
      A x y := by
    rw [Fin.getElem_fin, Vector.getElem_ofFn, hx, hy]
  exact hlane

/-- `keccakF1600` permutes the states. -/
theorem keccakF1600_bijective : Function.Bijective keccakF1600 := by
  rw [← Function.Bijective.of_comp_iff' toState_bijective]
  have hcomp : toState ∘ keccakF1600 = KeccakF.permutation 6 ∘ toState := by
    funext state
    rw [Function.comp_apply, Function.comp_apply, toState_keccakF1600]
  have hperm : Function.Bijective (KeccakF.permutation 6 : KeccakF.State 64 → KeccakF.State 64) :=
    KeccakF.permutation_bijective (Nat.dvd_refl 64)
  rw [hcomp]
  exact hperm.comp toState_bijective

end Steps

/-! ### Blocks -/

section Blocks

theorem modify_append (f : UInt8 → UInt8) (xs ys : List UInt8) (i : Nat) :
    (xs ++ ys).modify (xs.length + i) f = xs ++ ys.modify i f :=
  List.modifyTailIdx_add (List.modifyHead f) i xs ys

/-- The input with its padding. -/
theorem padded_eq (input : List UInt8) : padded input = Sponge.pad rateBytes input := by
  have hlt : input.length % rateBytes < rateBytes := Nat.mod_lt _ (by decide)
  have hdiv := Nat.div_add_mod' input.length rateBytes
  obtain ⟨k, hk⟩ : ∃ k, rateBytes - input.length % rateBytes = k + 1 :=
    Nat.exists_eq_add_one.mpr (by omega)
  have hzeros : (input.length / rateBytes + 1) * rateBytes - input.length = k + 1 := by
    rw [Nat.add_mul]
    omega
  have hfirst : (input ++ List.replicate (k + 1) 0).modify input.length (· ^^^ 0x01) =
      input ++ 0x01 :: List.replicate k 0 :=
    modify_append _ input _ 0
  have hlast : (input ++ 0x01 :: List.replicate k (0 : UInt8)).length - 1 = input.length + k := by
    simp
  unfold padded Sponge.pad Sponge.padding
  simp only [hzeros, hfirst, hlast, hk, modify_append]
  cases k with
  | zero => rfl
  | succ j =>
      have hend : (List.replicate (j + 1) (0 : UInt8)).modify j (· ^^^ 0x80) =
          List.replicate j 0 ++ [0x80] := by
        have happ := modify_append (· ^^^ 0x80) (List.replicate j 0) [0] 0
        rw [List.length_replicate, Nat.add_zero] at happ
        rw [List.replicate_succ']
        exact happ
      rw [List.modify_succ_cons, hend, if_neg (by omega)]
      rfl

/-- A block of its own, from offset 0. -/
def injectBlock (block : Vector UInt8 rateBytes) (state : Lanes 25) : Lanes 25 :=
  absorbBlock block.toList 0 state

theorem getD_chunk (bytes : List UInt8) (b : Nat) {i : Nat} (hi : i < rateBytes) :
    (Sponge.chunk rateBytes bytes b).toList.getD i 0 =
      bytes.getD (b * rateBytes + i) 0 := by
  unfold Sponge.chunk
  rw [List.getD_eq_getElem?_getD, Vector.getElem?_toList, Vector.getElem?_ofFn, dif_pos hi]
  rfl

/-- A lane is read from eight bytes. -/
theorem getBigUint64_congr {view view' : List UInt8} {offset offset' : Nat}
    (h : ∀ j < 8, view.getD (offset + j) 0 = view'.getD (offset' + j) 0) :
    getBigUint64 view offset = getBigUint64 view' offset' := by
  unfold getBigUint64
  rw [List.map_congr_left fun j hj => h j (List.mem_range.mp hj)]

/-- The loop over a block reads that block only. -/
theorem absorbBlock_eq (bytes : List UInt8) (b : Nat) (state : Lanes 25) :
    absorbBlock bytes (b * rateBytes) state =
      injectBlock (Sponge.chunk rateBytes bytes b) state := by
  have hword : ∀ i : Fin 17, getBigUint64 bytes (b * rateBytes + i * 8) =
      getBigUint64 (Sponge.chunk rateBytes bytes b).toList (0 + i * 8) := by
    intro i
    refine getBigUint64_congr fun j hj => ?_
    have hlt : 0 + i * 8 + j < 136 := by omega
    rw [getD_chunk bytes b hlt, Nat.zero_add, Nat.add_assoc]
  unfold injectBlock absorbBlock
  simp only [hword]

theorem range'_eq_map (n step : Nat) :
    List.range' 0 n step = (List.range n).map fun b => b * step := by
  refine List.ext_getElem (by simp) fun i hi _ => ?_
  simp [Nat.mul_comm]

/-- The loop over the offsets absorbs the blocks in turn. -/
theorem absorbed_eq (input : List UInt8) :
    absorbed input = Sponge.absorb keccakF1600 injectBlock (zeros 25)
      (Sponge.chunks rateBytes (Sponge.pad rateBytes input)) := by
  unfold absorbed Sponge.absorb Sponge.chunks
  simp only [padded_eq, range'_eq_map, List.foldl_map, absorbBlock_eq]

/-- A lane's bits are those of its eight bytes. -/
theorem getLsbD_getBigUint64 (block : Vector UInt8 rateBytes) (k : Nat) {z : Nat} (hz : z < 64) :
    (getBigUint64 block.toList (0 + k * 8)).getLsbD z = KeccakF.blockBit block (64 * k + z) := by
  have hbyte : z / 8 < 8 := by omega
  have hdiv : (64 * k + z) / 8 = 0 + k * 8 + z / 8 := by omega
  have hmod : (64 * k + z) % 8 = z % 8 := by omega
  unfold getBigUint64 KeccakF.blockBit
  rw [BitVec.getLsbD_ofNat, decide_eq_true hz, Bool.true_and, LittleEndian.testBit_value,
    List.getD_eq_getElem?_getD, List.getElem?_map, List.getElem?_range hbyte, Option.map_some,
    Option.getD_some, List.getD_eq_getElem?_getD, Vector.getElem?_toList, hdiv, hmod]
  exact BitVec.testBit_toNat _

/-- Lanes beyond the block take nothing from it. -/
theorem blockBit_of_ge (block : Vector UInt8 rateBytes) {k : Nat} (hk : 8 * rateBytes ≤ k) :
    KeccakF.blockBit block k = false := by
  have hdiv : rateBytes ≤ k / 8 := by omega
  unfold KeccakF.blockBit
  rw [Vector.getElem?_eq_none hdiv]
  exact BitVec.getLsbD_zero

/-- A lane of the block. -/
def rateLane (i : Fin 17) : Fin 25 := i.castLE (by omega)

theorem rateLane_injective : Function.Injective rateLane := Fin.castLE_injective (by omega)

theorem injectBlock_eq (block : Vector UInt8 rateBytes) (state : Lanes 25) :
    injectBlock block state = Cells.update rateLane
      (fun i v => v ^^^ getBigUint64 block.toList (0 + i * 8)) state (List.finRange 17) := rfl

theorem toState_injectBlock (block : Vector UInt8 rateBytes) (state : Lanes 25) :
    toState (injectBlock block state) = KeccakF.addBlock block (toState state) := by
  funext x y
  unfold toState KeccakF.addBlock
  rw [injectBlock_eq]
  by_cases hk : (x : Nat) + 5 * y < 17
  · obtain ⟨i, hi⟩ : ∃ i, rateLane i = lane x y := ⟨⟨x + 5 * y, hk⟩, rfl⟩
    have hval : (i : Nat) = x + 5 * y := congrArg Fin.val hi
    have hcell := Cells.getElem_update (f := fun (i : Fin 17) v => v ^^^
      getBigUint64 block.toList (0 + i * 8)) rateLane_injective state (List.nodup_finRange 17)
      (List.mem_finRange i)
    simp only [hi, hval] at hcell
    have hword : getBigUint64 block.toList (0 + (x + 5 * y) * 8) =
        KeccakF.ofBits fun z : Fin 64 => KeccakF.blockBit block (64 * (x + 5 * y) + z) := by
      apply BitVec.eq_of_getLsbD_eq
      intro z hz
      rw [getLsbD_getBigUint64 _ _ hz, KeccakF.getLsbD_ofBits _ hz]
    rw [← hword]
    exact hcell
  · have hne : ∀ i ∈ List.finRange 17, rateLane i ≠ lane x y := by
      intro i _ h
      have hval : (i : Nat) = x + 5 * y := congrArg Fin.val h
      omega
    have hzero : KeccakF.ofBits
        (fun z : Fin 64 => KeccakF.blockBit block (64 * (x + 5 * y) + z)) = 0 := by
      apply BitVec.eq_of_getLsbD_eq
      intro z hz
      rw [KeccakF.getLsbD_ofBits _ hz, blockBit_of_ge]
      · exact BitVec.getLsbD_zero.symm
      · unfold rateBytes
        omega
    have hcell := Cells.getElem_update_of_ne
      (f := fun (i : Fin 17) v => v ^^^ getBigUint64 block.toList (0 + i * 8)) state hne
    rw [hzero]
    exact hcell.trans BitVec.xor_zero.symm

theorem toState_zeros : toState (zeros 25) = fun _ _ => 0 := by
  funext x y
  exact Vector.getElem_replicate (lane x y).isLt

theorem toState_absorbed (input : List UInt8) :
    toState (absorbed input) = Sponge.absorb (KeccakF.permutation 6) KeccakF.addBlock
      (fun _ _ => 0) (Sponge.chunks rateBytes (Sponge.pad rateBytes input)) := by
  rw [absorbed_eq, ← toState_zeros]
  generalize zeros 25 = state
  induction Sponge.chunks rateBytes (Sponge.pad rateBytes input) generalizing state with
  | nil => rfl
  | cons block blocks ih =>
      unfold Sponge.absorb at ih ⊢
      rw [List.foldl_cons, List.foldl_cons, ih, toState_keccakF1600, toState_injectBlock]

end Blocks

/-! ### Output -/

section Output

/-- The bytes of one lane. -/
theorem toLeBytes_eq_map (x : BitVec 64) :
    toLeBytes (UInt64.ofBitVec x) = (List.range 8).map fun i =>
      UInt8.ofBitVec (KeccakF.ofBits fun j : Fin 8 => x.getLsbD (8 * i + j)) := by
  unfold toLeBytes
  refine List.map_congr_left fun i _ => ?_
  apply UInt8.toBitVec_inj.mp
  apply BitVec.eq_of_getLsbD_eq
  intro z hz
  have hpow : 256 ^ i = 2 ^ (8 * i) := by rw [Nat.pow_mul]
  rw [UInt8.toBitVec_ofBitVec, KeccakF.getLsbD_ofBits _ hz, UInt8.toBitVec_ofNat',
    BitVec.getLsbD_ofNat, decide_eq_true hz, Bool.true_and, hpow, Nat.testBit_div_two_pow,
    Nat.add_comm z]
  exact BitVec.testBit_toNat x

/-- The first four lanes are the first 32 bytes of the state. -/
theorem output_eq (state : Lanes 25) : output state = KeccakF.stateBytes 32 (toState state) := by
  have hrange : List.range 32 = (List.finRange 4).flatMap fun k : Fin 4 =>
      (List.range 8).map fun j => 8 * (k : Nat) + j := by decide
  unfold output KeccakF.stateBytes
  rw [hrange, List.map_flatMap]
  congr 1
  funext k
  rw [toLeBytes_eq_map, List.map_map]
  refine List.map_congr_left fun i hi => ?_
  have hi := List.mem_range.mp hi
  congr 2
  funext j
  have hk := k.isLt
  have hdiv : (8 * (8 * (k : Nat) + i) + j) / 64 = k := by omega
  have hmod : (8 * (8 * (k : Nat) + i) + j) % 64 = 8 * i + j := by omega
  have hlane : lane (Fin.ofNat 5 k) (Fin.ofNat 5 ((k : Nat) / 5)) = k.castLE (by omega) := by
    decide +revert
  unfold KeccakF.stateBit toState
  rw [hdiv, hmod]
  simp only [hlane]
  rfl

/-- `keccak256` is Keccak with a rate of 136 bytes on lanes of 64 bits. -/
theorem keccak256_eq_hash (input : List UInt8) :
    (keccak256 input).bytes = KeccakF.hash 64 6 rateBytes 32 input := by
  unfold KeccakF.hash
  calc (keccak256 input).bytes
      _ = output (absorbed input) := rfl
      _ = _ := by rw [output_eq, toState_absorbed]

end Output

end IceMarkets.Sdk.Keccak
