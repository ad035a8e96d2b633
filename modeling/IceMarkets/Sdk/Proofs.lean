import IceMarkets.Sdk.Merkle
import IceMarkets.Distributor.Run

/-!
# IceMarkets.Sdk.Proofs

Claim trees and the program's verifier: every entry's proof is accepted
(`getProof_accepted`), and nothing else is (`verify_sound`).

Soundness assumes the hash injective on what was hashed: the leaf and pair preimages
of the tree, and those of the one verification.
-/

namespace IceMarkets.Sdk

open Distributor (verify leaf)

variable {keccak256 : List UInt8 → Bytes32}

/-! ### Completeness -/

/-- The proof of every entry leads the verifier to the root. -/
theorem getProof_accepted {epoch : Bytes32} {tree : EpochMerkleTree}
    (htree : TreeOf keccak256 epoch tree) {i : Nat} {e : Entry} (he : tree.entries[i]? = some e) :
    ∃ proof, getProof tree.toMerkleTree i = .ok proof ∧
      proof.length ≤ Nat.clog 2 tree.entries.length ∧
      verify keccak256 proof tree.root (leaf keccak256 epoch e.wallet e.amount) = true := by
  have hlt : i < tree.entries.length := (List.getElem?_eq_some_iff.mp he).1
  have hleaf : (tree.entries.map fun e => hashLeaf keccak256 epoch e.wallet e.amount)[i]? =
      some (hashLeaf keccak256 epoch e.wallet e.amount) := by
    rw [List.getElem?_map, he]
    rfl
  -- layer 0 has one leaf for each entry
  have hcount : (tree.layers.headD []).length = tree.entries.length := by
    rw [htree.layers, CarryTree.headD_layers, List.length_map]
  have hlength := CarryTree.length_path_le (hashPair keccak256)
    (tree.entries.map fun e => hashLeaf keccak256 epoch e.wallet e.amount) i
  have hclimb := CarryTree.climb_path (@hashPair_comm keccak256) hleaf
  rw [← htree.layers] at hlength hclimb
  rw [List.length_map] at hlength
  refine ⟨CarryTree.path tree.layers i, ?_, hlength, ?_⟩
  · unfold getProof
    rw [hcount, if_neg (by omega), Int.toNat_natCast]
  · rw [verify_eq_true, ← hashLeaf_eq_leaf]
    exact Option.some.inj (hclimb.symm.trans htree.root)

/-! ### Soundness -/

/-- What is hashed to build the tree of `epoch` over `entries`, and to verify `proof` for
`(epoch', wallet, amount)`. -/
def formedPreimages (keccak256 : List UInt8 → Bytes32) (epoch : Bytes32) (entries : List Entry)
    (epoch' wallet : Bytes32) (amount : UInt64) (proof : List Bytes32) : List (List UInt8) :=
  CarryTree.preimages keccak256 pairPreimage
    (entries.map fun e => leafPreimage epoch e.wallet e.amount)
    (leafPreimage epoch' wallet amount) proof

/-- Merkle soundness. What the program's verifier accepts against the root of an epoch's
tree, with any proof, is an entry of that tree, in that epoch. -/
theorem verify_sound {epoch : Bytes32} {entries : List MerkleEntry} {tree : EpochMerkleTree}
    (htree : buildEpochTree keccak256 epoch.bytes entries = .ok tree) {epoch' wallet : Bytes32}
    {amount : UInt64} {proof : List Bytes32}
    (hinj : Set.InjOn keccak256
      {p | p ∈ formedPreimages keccak256 epoch tree.entries epoch' wallet amount proof})
    (h : verify keccak256 proof tree.root (leaf keccak256 epoch' wallet amount) = true) :
    epoch' = epoch ∧ { wallet := wallet.bytes, amount := amount.toNat } ∈ entries := by
  obtain ⟨key, hkey, hentries, hof⟩ := buildEpochTree_ok htree
  obtain rfl := Bytes32.ext_bytes hkey
  have hroot := hof.root
  rw [← verify_eq_true.mp h] at hroot
  have hmem : leafPreimage epoch' wallet amount ∈
      tree.entries.map fun e => leafPreimage epoch e.wallet e.amount := by
    refine CarryTree.mem_of_climb hinj (fun a b c d => pairPreimage_inj) ?_
      (leafPreimage_ne_pairPreimage epoch' wallet amount) ?_
    · intro q hq
      obtain ⟨e, -, rfl⟩ := List.mem_map.mp hq
      exact leafPreimage_ne_pairPreimage epoch e.wallet e.amount
    · rw [List.map_map]
      exact hroot
  obtain ⟨e, he, heq⟩ := List.mem_map.mp hmem
  obtain ⟨hepoch, hwallet, hamount⟩ := leafPreimage_inj heq
  refine ⟨hepoch.symm, ?_⟩
  rw [hentries, ← hwallet, ← hamount]
  exact List.mem_map_of_mem he

namespace Sample

open Distributor.Sample (epochKey walletA walletB walletC leafA leafB leafC nodeAB root)

def entries : List Entry :=
  [{ wallet := walletA, amount := 10 }, { wallet := walletB, amount := 20 },
    { wallet := walletC, amount := 30 }]

def tree : EpochMerkleTree where
  layers := [[leafA, leafB, leafC], [nodeAB, leafC], [root]]
  root := root
  leafCount := 3
  entries := entries
  total := 60

theorem buildEpochTree_entries :
    buildEpochTree Distributor.Sample.keccak256 epochKey.bytes (entries.map Entry.raw) =
      .ok tree := by
  decide +kernel

/-- What the tree and the verification of `walletC` hash. -/
def formed : List (List UInt8) :=
  formedPreimages Distributor.Sample.keccak256 epochKey entries epochKey walletC 30 [nodeAB]

end Sample

/-- The carried leaf of the sample tree, with its one-element proof. -/
theorem verify_sound_sample :
    Distributor.Sample.epochKey = Distributor.Sample.epochKey ∧
      { wallet := Distributor.Sample.walletC.bytes, amount := 30 } ∈
        Sample.entries.map Entry.raw := by
  have hinj : ∀ p ∈ Sample.formed, ∀ q ∈ Sample.formed,
      Distributor.Sample.keccak256 p = Distributor.Sample.keccak256 q → p = q := by
    decide +kernel
  exact verify_sound Sample.buildEpochTree_entries (fun p hp q hq => hinj p hp q hq)
    (by decide +kernel)

end IceMarkets.Sdk
