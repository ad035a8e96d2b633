import IceMarkets.Sdk.KeccakSpec
import IceMarkets.Sdk.Proofs
import Mathlib.Data.Fintype.EquivFin
import Mathlib.Data.Fintype.Pigeonhole
import Mathlib.Data.Set.Finite.List
import Mathlib.SetTheory.Cardinal.Finite

/-!
# IceMarkets.Sdk.KeccakCollisions

What a collision of `keccak256` comes to. Padding loses nothing and neither does adding
a block, so two messages with one digest have made two calls of `keccakF1600` that agree
in the four lanes put out or in the eight lanes no block reaches, or one call that clears
those eight lanes (`calls_collide`). The preimages of a claim tree are single blocks: a
claim accepted without an entry exhibits two of them that agree in the four lanes.
-/

namespace IceMarkets

/-! ### Digests are few -/

theorem Bytes32.finite : Finite Bytes32 := by
  have hbyte : Finite UInt8 := Finite.of_injective UInt8.toFin fun _ _ => UInt8.toFin_inj.mp
  have hlists : Finite {l : List UInt8 | l.length = 32} := List.finite_length_eq UInt8 32
  exact Finite.of_injective
    (fun b => (⟨b.bytes, b.length_eq⟩ : {l : List UInt8 | l.length = 32}))
    fun _ _ h => Bytes32.ext_bytes (congrArg Subtype.val h)

end IceMarkets

namespace IceMarkets.Sdk.Keccak

/-! ### Collisions -/

section Collisions

/-- A lane no block is added to. -/
def capacityLane (i : Fin 8) : Fin 25 := ⟨17 + i, by omega⟩

def capacity (state : Lanes 25) (i : Fin 8) : BitVec 64 := state[capacityLane i]

/-- The states `keccakF1600` is called on for a message. -/
def calls (input : List UInt8) : List (Lanes 25) :=
  Sponge.inputs keccakF1600 injectBlock (zeros 25) (Sponge.chunks rateBytes (padded input))

/-- Two calls for the messages agree in the lanes put out, or in the capacity. -/
def CallsCollide (input input' : List UInt8) : Prop :=
  (∃ u ∈ calls input, ∃ v ∈ calls input',
      u ≠ v ∧ output (keccakF1600 u) = output (keccakF1600 v)) ∨
    Sponge.InnerCollision keccakF1600 capacity (zeros 25) (calls input) (calls input')

theorem capacity_injectBlock (block : Vector UInt8 rateBytes) (state : Lanes 25) :
    capacity (injectBlock block state) = capacity state := by
  funext i
  have hne : ∀ k ∈ List.finRange 17, rateLane k ≠ capacityLane i := by
    intro k _ h
    have hval : (k : Nat) = 17 + i := congrArg Fin.val h
    omega
  rw [injectBlock_eq]
  exact Cells.getElem_update_of_ne state hne

theorem injectBlock_injective {block block' : Vector UInt8 rateBytes} {state : Lanes 25}
    (h : injectBlock block state = injectBlock block' state) : block = block' := by
  have hstate := congrArg toState h
  rw [toState_injectBlock, toState_injectBlock] at hstate
  have hrate : 8 * rateBytes ≤ 25 * 64 := by decide
  exact KeccakF.addBlock_injective hrate hstate

theorem chunks_padded_injective {input input' : List UInt8}
    (h : Sponge.chunks rateBytes (padded input) = Sponge.chunks rateBytes (padded input')) :
    input = input' := by
  have hpos : 0 < rateBytes := by decide
  rw [padded_eq, padded_eq] at h
  refine Sponge.pad_injective rateBytes (Sponge.eq_of_chunks_eq ?_ ?_ hpos h)
  · exact Dvd.intro_left _ (Sponge.length_pad hpos input).symm
  · exact Dvd.intro_left _ (Sponge.length_pad hpos input').symm

theorem keccak256_bytes (input : List UInt8) : (keccak256 input).bytes =
    output (Sponge.absorb keccakF1600 injectBlock (zeros 25)
      (Sponge.chunks rateBytes (padded input))) := by
  rw [padded_eq, ← absorbed_eq]
  rfl

theorem chunks_padded_ne_nil (input : List UInt8) :
    Sponge.chunks rateBytes (padded input) ≠ [] := by
  have hpos : 0 < rateBytes := by decide
  unfold Sponge.chunks
  rw [padded_eq, Sponge.length_pad hpos, Nat.mul_div_cancel _ hpos, List.range_succ]
  simp

/-- A collision of the hash is one of the permutation, on calls made for the two messages. -/
theorem calls_collide {input input' : List UInt8} (h : keccak256 input = keccak256 input') :
    input = input' ∨ CallsCollide input input' := by
  by_cases hne : input = input'
  · exact Or.inl hne
  · have hbytes := congrArg Bytes32.bytes h
    rw [keccak256_bytes, keccak256_bytes] at hbytes
    by_cases hstate : Sponge.absorb keccakF1600 injectBlock (zeros 25)
        (Sponge.chunks rateBytes (padded input)) = Sponge.absorb keccakF1600 injectBlock (zeros 25)
        (Sponge.chunks rateBytes (padded input'))
    · exact Or.inr (Or.inr (Sponge.inner_collision capacity_injectBlock
        (fun _ _ _ => injectBlock_injective) (fun hc => hne (chunks_padded_injective hc)) hstate))
    · -- the last calls differ and put out the same
      obtain ⟨u, hu, hx⟩ := Sponge.absorb_eq_last keccakF1600 injectBlock (s := zeros 25)
        (chunks_padded_ne_nil input)
      obtain ⟨v, hv, hy⟩ := Sponge.absorb_eq_last keccakF1600 injectBlock (s := zeros 25)
        (chunks_padded_ne_nil input')
      rw [hx, hy] at hbytes hstate
      exact Or.inr (Or.inl ⟨u, hu, v, hv, fun huv => hstate (congrArg keccakF1600 huv), hbytes⟩)

/-- There are more messages than digests. -/
theorem exists_calls_collide : ∃ input input', input ≠ input' ∧
    keccak256 input = keccak256 input' ∧ CallsCollide input input' := by
  have hfinite := Bytes32.finite
  obtain ⟨input, input', hne, h⟩ := Finite.exists_ne_map_eq_of_infinite keccak256
  exact ⟨input, input', hne, h, (calls_collide h).resolve_left hne⟩

end Collisions

/-! ### Single blocks -/

section SingleBlock

/-- The one call for a message that fits a block with its padding. -/
def onlyCall (input : List UInt8) : Lanes 25 :=
  injectBlock (Sponge.chunk rateBytes (padded input) 0) (zeros 25)

variable {input input' : List UInt8}

theorem chunks_padded_single (h : input.length < rateBytes) :
    Sponge.chunks rateBytes (padded input) = [Sponge.chunk rateBytes (padded input) 0] := by
  have hpos : 0 < rateBytes := by decide
  unfold Sponge.chunks
  rw [padded_eq, Sponge.length_pad hpos, Nat.mul_div_cancel _ hpos, Nat.div_eq_of_lt h]
  rfl

theorem calls_single (h : input.length < rateBytes) : calls input = [onlyCall input] := by
  unfold calls
  rw [chunks_padded_single h]
  rfl

theorem keccak256_single (h : input.length < rateBytes) :
    (keccak256 input).bytes = output (keccakF1600 (onlyCall input)) := by
  rw [keccak256_bytes, chunks_padded_single h]
  rfl

/-- Messages of one block are told apart by their calls. -/
theorem onlyCall_injective (h : input.length < rateBytes) (h' : input'.length < rateBytes)
    (heq : onlyCall input = onlyCall input') : input = input' := by
  apply chunks_padded_injective
  rw [chunks_padded_single h, chunks_padded_single h', injectBlock_injective heq]

end SingleBlock

end IceMarkets.Sdk.Keccak

namespace IceMarkets.Sdk

/-! ### Claim trees -/

open Distributor (verify leaf)

/-- Every preimage hashed for a tree and for a verification is a leaf's or a pair's. -/
theorem length_formedPreimages {keccak256 : List UInt8 → Bytes32} {epoch : Bytes32}
    {entries : List Entry} {epoch' wallet : Bytes32} {amount : UInt64} {proof : List Bytes32}
    {p : List UInt8}
    (hp : p ∈ formedPreimages keccak256 epoch entries epoch' wallet amount proof) :
    p.length ≤ 72 := by
  have hpairings : ∀ nodes : List Bytes32, ∀ p ∈ CarryTree.pairings pairPreimage nodes,
      p.length ≤ 72 := by
    intro nodes
    induction nodes using CarryTree.parents.induct with
    | case1 a b rest ih =>
        intro p hp
        rcases List.mem_cons.mp hp with rfl | hp
        · rw [length_pairPreimage]
          omega
        · exact ih p hp
    | case2 nodes h =>
        intro p hp
        rw [CarryTree.pairings] at hp
        · cases hp
        · exact h
  have hclimb : ∀ (proof : List Bytes32) (x : Bytes32),
      ∀ p ∈ CarryTree.climbPreimages keccak256 pairPreimage x proof, p.length ≤ 72 := by
    intro proof
    induction proof with
    | nil =>
        intro x p hp
        cases hp
    | cons s proof ih =>
        intro x p hp
        rcases List.mem_cons.mp hp with rfl | hp
        · rw [length_pairPreimage]
          omega
        · exact ih _ p hp
  unfold formedPreimages CarryTree.preimages CarryTree.treePreimages at hp
  simp only [List.mem_append, List.mem_cons, List.mem_map, List.mem_flatMap] at hp
  rcases hp with (⟨e, -, rfl⟩ | ⟨nodes, -, hp⟩) | rfl | hp
  · rw [length_leafPreimage]
  · exact hpairings nodes p hp
  · rw [length_leafPreimage]
  · exact hclimb proof _ p hp

/-- What the verifier accepts is an entry, or two preimages it met have one digest. -/
theorem entry_or_collision {keccak256 : List UInt8 → Bytes32} {epoch : Bytes32}
    {tree : EpochMerkleTree} (hof : TreeOf keccak256 epoch tree) {epoch' wallet : Bytes32}
    {amount : UInt64} {proof : List Bytes32}
    (h : verify keccak256 proof tree.root (leaf keccak256 epoch' wallet amount) = true) :
    (epoch' = epoch ∧ { wallet, amount : Entry } ∈ tree.entries) ∨
      ∃ p ∈ formedPreimages keccak256 epoch tree.entries epoch' wallet amount proof,
        ∃ q ∈ formedPreimages keccak256 epoch tree.entries epoch' wallet amount proof,
          p ≠ q ∧ keccak256 p = keccak256 q := by
  by_cases hinj : Set.InjOn keccak256
      {p | p ∈ formedPreimages keccak256 epoch tree.entries epoch' wallet amount proof}
  · have hroot := hof.root
    rw [← verify_eq_true.mp h] at hroot
    have hmem : leafPreimage epoch' wallet amount ∈
        tree.entries.map fun e => leafPreimage epoch e.wallet e.amount := by
      refine CarryTree.mem_of_climb hinj (fun a b c d => pairPreimage_inj) ?_
        (leafPreimage_ne_pairPreimage epoch' wallet amount) ?_
      · intro q hq
        obtain ⟨e, -, rfl⟩ := List.mem_map.mp hq
        exact leafPreimage_ne_pairPreimage epoch e.wallet e.amount
      · rw [List.map_map]
        exact hroot
    obtain ⟨e, he, heq⟩ := List.mem_map.mp hmem
    obtain ⟨rfl, rfl, rfl⟩ := leafPreimage_inj heq
    exact Or.inl ⟨rfl, he⟩
  · unfold Set.InjOn at hinj
    push Not at hinj
    obtain ⟨p, hp, q, hq, heq, hne⟩ := hinj
    exact Or.inr ⟨p, hp, q, hq, hne, heq⟩

/-- A forged claim shows two different inputs of the permutation that agree in what is put
out: all that a tree and a verification hash are single blocks, and different ones make
different inputs. -/
theorem forged_claim_collides {epoch : Bytes32} {entries : List MerkleEntry}
    {tree : EpochMerkleTree}
    (htree : buildEpochTree Keccak.keccak256 epoch.bytes entries = .ok tree)
    {epoch' wallet : Bytes32} {amount : UInt64} {proof : List Bytes32}
    (h : verify Keccak.keccak256 proof tree.root (leaf Keccak.keccak256 epoch' wallet amount) =
      true) :
    (epoch' = epoch ∧ { wallet := wallet.bytes, amount := amount.toNat } ∈ entries) ∨
      ∃ p ∈ formedPreimages Keccak.keccak256 epoch tree.entries epoch' wallet amount proof,
        ∃ q ∈ formedPreimages Keccak.keccak256 epoch tree.entries epoch' wallet amount proof,
          Keccak.calls p = [Keccak.onlyCall p] ∧ Keccak.calls q = [Keccak.onlyCall q] ∧
            Keccak.onlyCall p ≠ Keccak.onlyCall q ∧
            Keccak.output (Keccak.keccakF1600 (Keccak.onlyCall p)) =
              Keccak.output (Keccak.keccakF1600 (Keccak.onlyCall q)) := by
  obtain ⟨key, hkey, hentries, hof⟩ := buildEpochTree_ok htree
  obtain rfl := Bytes32.ext_bytes hkey
  rcases entry_or_collision hof h with ⟨rfl, hmem⟩ | ⟨p, hp, q, hq, hne, heq⟩
  · left
    rw [hentries]
    exact ⟨rfl, List.mem_map_of_mem hmem⟩
  · have hrate : 72 < Keccak.rateBytes := by decide
    have hp' := Nat.lt_of_le_of_lt (length_formedPreimages hp) hrate
    have hq' := Nat.lt_of_le_of_lt (length_formedPreimages hq) hrate
    refine Or.inr ⟨p, hp, q, hq, Keccak.calls_single hp', Keccak.calls_single hq', ?_, ?_⟩
    · exact fun hcall => hne (Keccak.onlyCall_injective hp' hq' hcall)
    · rw [← Keccak.keccak256_single hp', ← Keccak.keccak256_single hq', heq]

/-- For each wallet there are two amounts, so two entries share a leaf. -/
theorem exists_leaf_collision (keccak256 : List UInt8 → Bytes32) (epoch : Bytes32) :
    ∃ e e' : Entry, e ≠ e' ∧ e'.amount ≤ 1 ∧
      hashLeaf keccak256 epoch e.wallet e.amount =
        hashLeaf keccak256 epoch e'.wallet e'.amount := by
  have hfinite := Bytes32.finite
  let amount : Bool → UInt64 := fun b => if b then 1 else 0
  let leaf : Bytes32 × Bool → Bytes32 := fun x => hashLeaf keccak256 epoch x.1 (amount x.2)
  have hninj : ¬ Function.Injective leaf := by
    intro hinj
    have hcard := Nat.card_le_card_of_injective leaf hinj
    have hpos : 0 < Nat.card Bytes32 := Nat.card_pos_iff.mpr ⟨⟨epoch⟩, hfinite⟩
    have htwo : Nat.card Bool = 2 := by rw [Nat.card_eq_fintype_card, Fintype.card_bool]
    rw [Nat.card_prod, htwo] at hcard
    omega
  obtain ⟨⟨w, b⟩, ⟨w', b'⟩, heq, hne⟩ := Function.not_injective_iff.mp hninj
  have hsmall : ∀ c, amount c ≤ 1 := by decide
  have hamount : ∀ c c', amount c = amount c' → c = c' := by decide
  refine ⟨⟨w, amount b⟩, ⟨w', amount b'⟩, ?_, hsmall b', heq⟩
  intro h
  obtain ⟨rfl, hab⟩ := Entry.mk.inj h
  exact hne (Prod.ext rfl (hamount b b' hab))

/-- A forged claim that is accepted: the tree of an entry and another one, and a second
entry with the first one's leaf, under the first one's proof. -/
theorem exists_forged_claim : ∃ (entries : List MerkleEntry) (tree : EpochMerkleTree) (e : Entry)
    (proof : List Bytes32),
    buildEpochTree Keccak.keccak256 Distributor.Sample.epochKey.bytes entries = .ok tree ∧
      verify Keccak.keccak256 proof tree.root
        (leaf Keccak.keccak256 Distributor.Sample.epochKey e.wallet e.amount) = true ∧
      proof ≠ [] ∧ e.raw ∉ entries ∧
      ∃ p ∈ formedPreimages Keccak.keccak256 Distributor.Sample.epochKey tree.entries
          Distributor.Sample.epochKey e.wallet e.amount proof,
        ∃ q ∈ formedPreimages Keccak.keccak256 Distributor.Sample.epochKey tree.entries
            Distributor.Sample.epochKey e.wallet e.amount proof,
          Keccak.calls p = [Keccak.onlyCall p] ∧ Keccak.calls q = [Keccak.onlyCall q] ∧
            Keccak.onlyCall p ≠ Keccak.onlyCall q ∧
            Keccak.output (Keccak.keccakF1600 (Keccak.onlyCall p)) =
              Keccak.output (Keccak.keccakF1600 (Keccak.onlyCall q)) := by
  obtain ⟨e, e', hne, hsmall, hleaf⟩ :=
    exists_leaf_collision Keccak.keccak256 Distributor.Sample.epochKey
  obtain ⟨w, hw⟩ : ∃ w, e.wallet ≠ w := by
    by_cases h : e.wallet = Distributor.Sample.walletA
    · exact ⟨Distributor.Sample.walletB, by rw [h]; decide⟩
    · exact ⟨_, h⟩
  let other : Entry := ⟨w, 2⟩
  obtain ⟨tree, htree, hentries, hof⟩ := exists_buildEpochTree Keccak.keccak256
    Distributor.Sample.epochKey (List.cons_ne_nil e [other]) (by simp [other, hw])
  let proof := [hashLeaf Keccak.keccak256 Distributor.Sample.epochKey other.wallet other.amount]
  have hverify : verify Keccak.keccak256 proof tree.root
      (leaf Keccak.keccak256 Distributor.Sample.epochKey e'.wallet e'.amount) = true := by
    have hroot := hof.root
    rw [hentries, CarryTree.root?_parents (by simp)] at hroot
    rw [CarryTree.root?_of_le_one (by simp [CarryTree.parents])] at hroot
    rw [verify_eq_true, ← hashLeaf_eq_leaf, ← hleaf]
    exact Option.some.inj hroot
  have hforged : e'.raw ∉ [e, other].map Entry.raw := by
    intro hmem
    rcases List.mem_cons.mp hmem with h | h
    · exact hne (Entry.raw_injective h).symm
    · rw [Entry.raw_injective (List.mem_singleton.mp h)] at hsmall
      exact absurd hsmall (by decide : ¬ (2 : UInt64) ≤ 1)
  refine ⟨_, tree, e', proof, htree, hverify, List.cons_ne_nil _ _, hforged, ?_⟩
  exact (forged_claim_collides htree hverify).resolve_left fun h => hforged h.2

end IceMarkets.Sdk
