import IceMarkets.Distributor.Instructions
import IceMarkets.Lib.CarryTree

/-!
# IceMarkets.Sdk.Merkle

The claim trees of `packages/sdk/src/merkle.ts`, and their agreement with the
program's verifier.

Buffers of keys and digests are 32-byte values once they are checked; what callers
pass is raw bytes and integers. The hash is a parameter, the same function on both
sides. Layers and proofs are `CarryTree`'s, at the sorted-pair hash.
-/

namespace IceMarkets.Sdk

/-! ### Errors -/

/-- What the builder throws. -/
inductive MerkleError
  | keyLength (got : Nat)
  | amountRange (amount : Int)
  | noLeaves
  | noEntries
  | duplicateWallet (wallet : Bytes32)
  | indexRange (index : Int) (leafCount : Nat)
  deriving DecidableEq, Repr

/-- `Buffer.toString("hex")`. -/
def hex (bytes : List UInt8) : String :=
  String.ofList (bytes.flatMap fun b =>
    [Nat.digitChar (b.toNat / 16), Nat.digitChar (b.toNat % 16)])

/-- The thrown error's text. -/
def MerkleError.message : MerkleError → String
  | keyLength got => "expected 32-byte key, got " ++ toString got
  | amountRange amount => "amount out of u64 range: " ++ toString amount
  | noLeaves => "buildTree: at least one leaf required"
  | noEntries => "buildEpochTree: no entries"
  | duplicateWallet wallet => "buildEpochTree: duplicate wallet " ++ hex wallet.bytes
  | indexRange index leafCount =>
      "getProof: index " ++ toString index ++ " out of range [0, " ++ toString leafCount ++ ")"

/-! ### Hashes -/

section Hashes

variable (keccak256 : List UInt8 → Bytes32)

/-- `epoch_pubkey[32] || wallet[32] || amount_u64_le[8]`. -/
def leafPreimage (epoch wallet : Bytes32) (amount : UInt64) : List UInt8 :=
  epoch.bytes ++ wallet.bytes ++ toLeBytes amount

/-- Two digests, the lesser first. -/
def pairPreimage (a b : Bytes32) : List UInt8 :=
  let (lo, hi) := if Bytes32.le a b then (a, b) else (b, a)
  lo.bytes ++ hi.bytes

def hashLeaf (epoch wallet : Bytes32) (amount : UInt64) : Bytes32 :=
  keccak256 (leafPreimage epoch wallet amount)

def hashPair (a b : Bytes32) : Bytes32 := keccak256 (pairPreimage a b)

end Hashes

/-! ### Trees -/

structure MerkleTree where
  /-- Layer 0 is the leaves, last layer is `[root]`. -/
  layers : List (List Bytes32)
  root : Bytes32
  leafCount : Nat
  deriving DecidableEq, Repr

/-- An entry as a caller passes it. -/
structure MerkleEntry where
  wallet : List UInt8
  amount : Int
  deriving DecidableEq, Repr

/-- A normalised entry. -/
structure Entry where
  wallet : Bytes32
  amount : UInt64
  deriving DecidableEq, Repr

structure EpochMerkleTree extends MerkleTree where
  /-- Normalised entries, same order as `layers[0]`. -/
  entries : List Entry
  /-- The sum of the amounts, to pass to `finalize_epoch`. -/
  total : Nat
  deriving DecidableEq, Repr

section Trees

variable (keccak256 : List UInt8 → Bytes32)

def buildTree (leaves : List Bytes32) : Except MerkleError MerkleTree :=
  let layers := CarryTree.layers (hashPair keccak256) leaves
  match CarryTree.root? (hashPair keccak256) leaves with
  | none => .error .noLeaves
  | some root => .ok { layers, root, leafCount := leaves.length }

/-- Sibling hashes from the leaf layer up to the root. -/
def getProof (tree : MerkleTree) (index : Int) : Except MerkleError (List Bytes32) :=
  let leafCount := (tree.layers.headD []).length
  if index < 0 ∨ (leafCount : Int) ≤ index then .error (.indexRange index leafCount)
  else .ok (CarryTree.path tree.layers index.toNat)

def keyBytes (k : List UInt8) : Except MerkleError Bytes32 :=
  if h : k.length = 32 then .ok ⟨k, h⟩ else .error (.keyLength k.length)

def toU64 (amount : Int) : Except MerkleError UInt64 :=
  if amount < 0 ∨ (2 ^ 64 - 1 : Int) < amount then .error (.amountRange amount)
  else .ok (UInt64.ofNat amount.toNat)

/-- An entry with its key and its amount checked. -/
def normEntry (e : MerkleEntry) : Except MerkleError Entry := do
  let wallet ← keyBytes e.wallet
  let amount ← toU64 e.amount
  return { wallet, amount }

/-- The loop over `seen`. -/
def checkDistinct : List Entry → List Bytes32 → Except MerkleError Unit
  | [], _ => .ok ()
  | e :: rest, seen =>
      if e.wallet ∈ seen then .error (.duplicateWallet e.wallet)
      else checkDistinct rest (e.wallet :: seen)

/-- `leafHash`: the epoch's key is checked for every leaf. -/
def leafHash (epoch : List UInt8) (e : Entry) : Except MerkleError Bytes32 := do
  let epoch ← keyBytes epoch
  return hashLeaf keccak256 epoch e.wallet e.amount

/-- The claim tree of one epoch. -/
def buildEpochTree (epoch : List UInt8) (entries : List MerkleEntry) :
    Except MerkleError EpochMerkleTree := do
  if entries.length = 0 then .error .noEntries
  else
    let norm ← entries.mapM normEntry
    checkDistinct norm []
    let leaves ← norm.mapM (leafHash keccak256 epoch)
    let tree ← buildTree keccak256 leaves
    return { tree with entries := norm, total := (norm.map fun e => e.amount.toNat).sum }

end Trees

/-! ### Checked inputs -/

/-- The entry a caller passes for a wallet and an amount. -/
def Entry.raw (e : Entry) : MerkleEntry where
  wallet := e.wallet.bytes
  amount := e.amount.toNat

section Checks

theorem keyBytes_eq_ok {k : List UInt8} {key : Bytes32} :
    keyBytes k = .ok key ↔ k = key.bytes := by
  unfold keyBytes
  constructor
  · intro h
    split_ifs at h with hlen
    cases h
    rfl
  · intro hx
    obtain rfl := hx
    rw [dif_pos key.length_eq]

theorem toU64_eq_ok {n : Int} {amount : UInt64} :
    toU64 n = .ok amount ↔ n = amount.toNat := by
  unfold toU64
  constructor
  · intro h
    split_ifs at h with hr
    cases h
    rw [UInt64.toNat_ofNat']
    omega
  · intro hx
    obtain rfl := hx
    have := amount.toNat_lt
    rw [if_neg (by omega)]
    simp

theorem normEntry_eq_ok {e : MerkleEntry} {e' : Entry} : normEntry e = .ok e' ↔ e = e'.raw := by
  unfold normEntry
  simp only [bind_eq_ok, keyBytes_eq_ok, toU64_eq_ok]
  constructor
  · intro h
    obtain ⟨wallet, hw, amount, ha, h⟩ := h
    cases h
    cases e
    cases hw
    cases ha
    rfl
  · intro hx
    obtain rfl := hx
    exact ⟨e'.wallet, rfl, e'.amount, rfl, rfl⟩

theorem Entry.raw_injective : Function.Injective Entry.raw := by
  intro e e' h
  have he := (normEntry_eq_ok.mpr rfl : normEntry e.raw = .ok e)
  rw [normEntry_eq_ok.mpr h] at he
  cases he
  rfl

/-- Checking each element succeeds where each one's check does. -/
theorem mapM_eq_ok {ε α β : Type} {f : α → Except ε β} {g : β → α}
    (hf : ∀ a b, f a = .ok b ↔ a = g b) {l : List α} {l' : List β} :
    l.mapM f = .ok l' ↔ l = l'.map g := by
  induction l generalizing l' with
  | nil =>
      rw [List.mapM_nil]
      constructor
      · intro h
        cases h
        rfl
      · intro h
        rw [List.map_eq_nil_iff.mp h.symm]
        rfl
  | cons a l ih =>
      simp only [List.mapM_cons, bind_eq_ok, hf, ih]
      constructor
      · intro hx
        obtain ⟨b, hb, bs, hbs, h⟩ := hx
        cases h
        rw [hb, hbs, List.map_cons]
      · intro h
        cases l' with
        | nil => cases h
        | cons b bs =>
            cases h
            exact ⟨b, rfl, bs, rfl, rfl⟩

theorem checkDistinct_eq_ok {l : List Entry} {seen : List Bytes32} {u : Unit} :
    checkDistinct l seen = .ok u ↔
      (l.map (·.wallet)).Nodup ∧ ∀ e ∈ l, e.wallet ∉ seen := by
  induction l generalizing seen with
  | nil => simp [checkDistinct]
  | cons e l ih =>
      unfold checkDistinct
      by_cases he : e.wallet ∈ seen
      · simp [he]
      · rw [if_neg he, ih]
        simp only [List.map_cons, List.nodup_cons, List.mem_map, List.mem_cons, not_or,
          forall_eq_or_imp, not_exists, not_and]
        constructor
        · intro h
          obtain ⟨hnodup, hall⟩ := h
          exact ⟨⟨fun e' he' => (hall e' he').1, hnodup⟩, he, fun e' he' => (hall e' he').2⟩
        · intro h
          obtain ⟨⟨hfirst, hnodup⟩, -, hall⟩ := h
          exact ⟨hnodup, fun e' he' => ⟨hfirst e' he', hall e' he'⟩⟩

end Checks

/-! ### What the builder returns -/

section Build

variable {keccak256 : List UInt8 → Bytes32}

/-- `tree` is the claim tree of `epoch` over its entries. -/
structure TreeOf (keccak256 : List UInt8 → Bytes32) (epoch : Bytes32) (tree : EpochMerkleTree) :
    Prop where
  nonempty : tree.entries ≠ []
  nodup : (tree.entries.map (·.wallet)).Nodup
  layers : tree.layers = CarryTree.layers (hashPair keccak256)
    (tree.entries.map fun e => hashLeaf keccak256 epoch e.wallet e.amount)
  root : CarryTree.root? (hashPair keccak256)
    (tree.entries.map fun e => hashLeaf keccak256 epoch e.wallet e.amount) = some tree.root
  total : tree.total = (tree.entries.map fun e => e.amount.toNat).sum

theorem leafHash_eq {epoch : Bytes32} {e : Entry} :
    leafHash keccak256 epoch.bytes e = .ok (hashLeaf keccak256 epoch e.wallet e.amount) := by
  unfold leafHash
  rw [keyBytes_eq_ok.mpr rfl]
  rfl

theorem mapM_leafHash (epoch : Bytes32) (l : List Entry) :
    l.mapM (leafHash keccak256 epoch.bytes) =
      .ok (l.map fun e => hashLeaf keccak256 epoch e.wallet e.amount) := by
  induction l with
  | nil => rfl
  | cons e l ih =>
      rw [List.mapM_cons, leafHash_eq, ih]
      rfl

/-- Distinct wallets make a tree. -/
theorem exists_buildEpochTree (keccak256 : List UInt8 → Bytes32) (epoch : Bytes32)
    {entries : List Entry} (hne : entries ≠ [])
    (hnodup : (entries.map (·.wallet)).Nodup) :
    ∃ tree, buildEpochTree keccak256 epoch.bytes (entries.map Entry.raw) = .ok tree ∧
      tree.entries = entries ∧ TreeOf keccak256 epoch tree := by
  let leaves := entries.map fun e => hashLeaf keccak256 epoch e.wallet e.amount
  have hleaves : leaves ≠ [] := by simpa [leaves] using hne
  obtain ⟨root, hroot⟩ := CarryTree.exists_root? (hashPair keccak256) hleaves
  let tree : EpochMerkleTree :=
    { layers := CarryTree.layers (hashPair keccak256) leaves, root, leafCount := leaves.length
      entries, total := (entries.map fun e => e.amount.toNat).sum }
  refine ⟨tree, ?_, rfl, hne, hnodup, rfl, hroot, rfl⟩
  unfold buildEpochTree
  rw [if_neg (by simpa using hne)]
  refine bind_eq_ok.mpr ⟨entries, (mapM_eq_ok fun _ _ => normEntry_eq_ok).mpr rfl, ?_⟩
  refine bind_eq_ok.mpr ⟨(), checkDistinct_eq_ok.mpr ⟨hnodup, by simp⟩, ?_⟩
  refine bind_eq_ok.mpr ⟨leaves, mapM_leafHash epoch entries, ?_⟩
  unfold buildTree
  rw [hroot]
  rfl

/-- What the builder accepts: 32-byte keys, `u64` amounts, distinct wallets. -/
theorem buildEpochTree_ok {epoch : List UInt8} {entries : List MerkleEntry}
    {tree : EpochMerkleTree} (h : buildEpochTree keccak256 epoch entries = .ok tree) :
    ∃ key : Bytes32, epoch = key.bytes ∧ entries = tree.entries.map Entry.raw ∧
      TreeOf keccak256 key tree := by
  have hbuild := h
  unfold buildEpochTree at h
  split_ifs at h with hlen
  obtain ⟨norm, hnorm, h⟩ := bind_eq_ok.mp h
  obtain ⟨_, hdistinct, h⟩ := bind_eq_ok.mp h
  obtain ⟨leaves, hleaves, -⟩ := bind_eq_ok.mp h
  have hentries : entries = norm.map Entry.raw := (mapM_eq_ok fun _ _ => normEntry_eq_ok).mp hnorm
  have hne : norm ≠ [] := by
    intro hnil
    rw [hentries, hnil] at hlen
    exact hlen rfl
  -- the epoch's key was checked for the first leaf
  have hkey : ∃ key : Bytes32, epoch = key.bytes := by
    cases norm with
    | nil => exact absurd rfl hne
    | cons e norm =>
        rw [List.mapM_cons] at hleaves
        obtain ⟨leaf, hleaf, -⟩ := bind_eq_ok.mp hleaves
        obtain ⟨key, hk, -⟩ := bind_eq_ok.mp hleaf
        exact ⟨key, keyBytes_eq_ok.mp hk⟩
  obtain ⟨key, rfl⟩ := hkey
  obtain ⟨tree', htree, hsame, hof⟩ := exists_buildEpochTree keccak256 key hne
    (checkDistinct_eq_ok.mp hdistinct).1
  rw [← hentries, hbuild] at htree
  cases htree
  exact ⟨key, rfl, by rw [hsame, hentries], hof⟩

end Build

/-! ### Agreement with the program -/

section Agreement

open Distributor (verify leaf)

variable {keccak256 : List UInt8 → Bytes32}

theorem hashLeaf_eq_leaf (epoch wallet : Bytes32) (amount : UInt64) :
    hashLeaf keccak256 epoch wallet amount = leaf keccak256 epoch wallet amount := rfl

theorem hashPair_eq (a b : Bytes32) :
    hashPair keccak256 a b = Distributor.hashPair keccak256 a b := by
  unfold hashPair Distributor.hashPair pairPreimage
  by_cases h : Bytes32.le a b = true
  · simp [h]
  · simp [h]

theorem pairPreimage_cases (a b : Bytes32) :
    pairPreimage a b = a.bytes ++ b.bytes ∨ pairPreimage a b = b.bytes ++ a.bytes := by
  unfold pairPreimage
  by_cases h : Bytes32.le a b = true
  · exact Or.inl (by simp [h])
  · exact Or.inr (by simp [h])

/-- The pair is sorted, so its order does not matter. -/
theorem pairPreimage_comm (a b : Bytes32) : pairPreimage a b = pairPreimage b a := by
  unfold pairPreimage
  by_cases hab : Bytes32.le a b = true
  · by_cases hba : Bytes32.le b a = true
    · rw [Bytes32.le_antisymm hab hba]
    · simp [hab, hba]
  · have hba := (Bytes32.le_total a b).resolve_left hab
    simp [hab, hba]

theorem hashPair_comm (a b : Bytes32) : hashPair keccak256 a b = hashPair keccak256 b a := by
  unfold hashPair
  rw [pairPreimage_comm]

/-- The verifier climbs as the tree combines. -/
theorem verify_eq_true {proof : List Bytes32} {root x : Bytes32} :
    verify keccak256 proof root x = true ↔ proof.foldl (hashPair keccak256) x = root := by
  unfold verify
  have hfun : hashPair keccak256 = Distributor.hashPair keccak256 :=
    funext fun a => funext fun b => hashPair_eq a b
  rw [decide_eq_true_eq, hfun]

theorem length_leafPreimage (epoch wallet : Bytes32) (amount : UInt64) :
    (leafPreimage epoch wallet amount).length = 72 := by
  unfold leafPreimage
  simp [epoch.length_eq, wallet.length_eq, toLeBytes_length]

theorem length_pairPreimage (a b : Bytes32) : (pairPreimage a b).length = 64 := by
  rcases pairPreimage_cases a b with h | h
  · simp [h, Bytes32.length_eq]
  · simp [h, Bytes32.length_eq]

/-- Leaf preimages are no pair preimages. -/
theorem leafPreimage_ne_pairPreimage (epoch wallet : Bytes32) (amount : UInt64) (a b : Bytes32) :
    leafPreimage epoch wallet amount ≠ pairPreimage a b := by
  intro h
  have hlen := congrArg List.length h
  rw [length_leafPreimage, length_pairPreimage] at hlen
  omega

theorem append_bytes_inj {a b : Bytes32} {xs ys : List UInt8}
    (h : a.bytes ++ xs = b.bytes ++ ys) : a = b ∧ xs = ys := by
  obtain ⟨hab, hxy⟩ := List.append_inj h (a.length_eq.trans b.length_eq.symm)
  exact ⟨Bytes32.ext_bytes hab, hxy⟩

/-- A sorted pair determines its two members. -/
theorem pairPreimage_inj {a b c d : Bytes32} (h : pairPreimage a b = pairPreimage c d) :
    a = c ∨ a = d := by
  rcases pairPreimage_cases a b with hab | hab <;> rcases pairPreimage_cases c d with hcd | hcd
  all_goals
    rw [hab, hcd] at h
    obtain ⟨h₁, h₂⟩ := List.append_inj h (by simp [Bytes32.length_eq])
  · exact Or.inl (Bytes32.ext_bytes h₁)
  · exact Or.inr (Bytes32.ext_bytes h₁)
  · exact Or.inr (Bytes32.ext_bytes h₂)
  · exact Or.inl (Bytes32.ext_bytes h₂)

/-- A leaf's preimage determines its epoch, its wallet and its amount. -/
theorem leafPreimage_inj {epoch epoch' wallet wallet' : Bytes32} {amount amount' : UInt64}
    (h : leafPreimage epoch wallet amount = leafPreimage epoch' wallet' amount') :
    epoch = epoch' ∧ wallet = wallet' ∧ amount = amount' := by
  unfold leafPreimage at h
  rw [List.append_assoc, List.append_assoc] at h
  obtain ⟨hepoch, h⟩ := append_bytes_inj h
  obtain ⟨hwallet, h⟩ := append_bytes_inj h
  exact ⟨hepoch, hwallet, toLeBytes_injective h⟩

end Agreement

end IceMarkets.Sdk
