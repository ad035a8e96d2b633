import IceMarkets.Distributor.Record
import IceMarkets.Lib.Numeric
import IceMarkets.Sdk.Merkle
import IceMarkets.Sdk.Twab

/-!
# IceMarkets.Keeper.Plan

The share plan of a payout epoch and what the payout cycle computes from it
(`apps/keeper/src/cycles/payouts.ts`): the plan of a set of balances, the split of what
is left of it into pushes and Merkle leaves, the chunks of a push, the claim tree, and
the reconciliation of what was pushed.

A wallet is its public key; the keeper's strings are their base58 texts. Amounts are the
bigints of the source, cut to a `u64` where they are encoded for an instruction. The amounts of
the `payouts` table are in base units, as the database rounds them.
-/

namespace IceMarkets.Keeper

open Distributor Sdk InsertionMap Numeric

/-! ### Plans -/

structure EpochPlanItem where
  wallet : Pubkey
  amount : Nat
  deriving DecidableEq, Repr

def planTotal (items : List EpochPlanItem) : Nat := (items.map (·.amount)).sum

/-- What surrounds one pool's payout cycle: its addresses, its configuration, and the
floating-point gates on prices. -/
structure KeeperEnv where
  keeper : Pubkey
  pool : Pubkey
  coinMint : Pubkey
  /-- PDA `["epoch", pool, index]`. -/
  epochPdaFor : Nat → Pubkey
  base58 : Pubkey → String
  keccak256 : List UInt8 → Bytes32
  excludedAddresses : List Pubkey
  feeCycleIntervalSec : Int
  /-- Whether the vault is worth `payoutMinPoolUsd`, at a COIN price. -/
  worthOpening : (vaultBaseUnits coinPrice : Nat) → Bool
  /-- Whether `payoutMinHoldingUsd` is positive. -/
  minHolding : Bool
  /-- The least balance worth it, at a candle close and a COIN price; none where the
  memecoin price they make is not a positive number. -/
  minBase : (close : String) → (coinPrice : Nat) → Option Nat

/-- The comparator of every `sort` by wallet. -/
def sortByWallet (env : KeeperEnv) (items : List EpochPlanItem) : List EpochPlanItem :=
  items.insertionSort fun a b => env.base58 a.wallet ≤ env.base58 b.wallet

/-- `plan.items` of `computePlan`, from the eligible balances. -/
def planItems (env : KeeperEnv) (eligible : List (Pubkey × Nat)) (total : Nat) :
    List EpochPlanItem :=
  match computeShares eligible total 0 1 0 with
  | none => []
  | some shares =>
      sortByWallet env ((shares.filter (0 < ·.2)).map fun (wallet, amount) => { wallet, amount })

/-! ### Pushes and leaves -/

/-- `remaining`: what is left of a plan after some wallets were pushed. -/
def remainingOf (plan : List EpochPlanItem) (alreadyPushed : List Pubkey) : List EpochPlanItem :=
  plan.filter fun p => 0 < p.amount ∧ p.wallet ∉ alreadyPushed

/-- `pushCap` as the keeper computes it. -/
def keeperPushCap (totalAmount maxPushPerEpochBps : Nat) : Nat :=
  totalAmount * maxPushPerEpochBps / 10000

/-- The lists `pushAndFinalize` sorts the remaining items into. -/
structure Split where
  pushable : List EpochPlanItem
  merkle : List EpochPlanItem
  pushedTotal : Nat
  deriving DecidableEq, Repr

/-- One item: pushed where its token account exists and the cap allows it. -/
def splitItem (pushCap : Nat) (s : Split) (p : EpochPlanItem) (existing : Bool) : Split :=
  if existing = true ∧ s.pushedTotal + p.amount ≤ pushCap then
    { s with pushable := s.pushable ++ [p], pushedTotal := s.pushedTotal + p.amount }
  else { s with merkle := s.merkle ++ [p] }

/-- The loop over the remaining items and the account infos, where a missing info is no
account. -/
def splitRemaining (pushCap : Nat) : List EpochPlanItem → List Bool → Split → Split
  | [], _, s => s
  | p :: remaining, infos, s =>
      splitRemaining pushCap remaining infos.tail (splitItem pushCap s p (infos.headD false))

/-- The split `pushAndFinalize` makes of a plan. -/
def splitPlan (cfg : DistConfig) (acc : Epoch) (plan : List EpochPlanItem)
    (alreadyPushed : List Pubkey)
    (infos : List Bool) : Split :=
  splitRemaining (keeperPushCap acc.totalAmount.toNat cfg.maxPushPerEpochBps.toNat)
    (remainingOf plan alreadyPushed) infos
    { pushable := [], merkle := [], pushedTotal := acc.pushedAmount.toNat }

/-- `maxRetries` of `sendWithPriority`. -/
def maxRetries : Nat := 3

/-- `PUSH_CHUNK_SIZE`. -/
def pushChunkSize : Nat := 12

/-- The slices of the loop `for (i = 0; i < length; i += PUSH_CHUNK_SIZE)`; `fuel` is the
length at most. -/
def chunksFrom {α : Type} : (fuel : Nat) → List α → List (List α)
  | 0, _ => []
  | fuel + 1, l =>
      if l.isEmpty then [] else l.take pushChunkSize :: chunksFrom fuel (l.drop pushChunkSize)

def chunks {α : Type} (l : List α) : List (List α) := chunksFrom l.length l

/-- The items of a `push_payouts`, as they are encoded: `u64` amounts. -/
def encodeItems (items : List EpochPlanItem) : Option (List PayoutItem) :=
  items.mapM fun p => (IceMarkets.toU64 p.amount).map fun amount => { wallet := p.wallet, amount }

/-- The claim tree of what is left; none where nothing is. -/
def epochTree (env : KeeperEnv) (index : Nat) (merkle : List EpochPlanItem) :
    Except MerkleError (Option EpochMerkleTree) :=
  if merkle.isEmpty then .ok none
  else (buildEpochTree env.keccak256 (env.epochPdaFor index).bytes
    (merkle.map fun p => { wallet := p.wallet.bytes, amount := p.amount })).map some

/-- The root posted: all zeros closes an all-push epoch. -/
def treeRoot (tree : Option EpochMerkleTree) : Bytes32 := (tree.map (·.root)).getD (Bytes32.fill 0)

def treeTotal (tree : Option EpochMerkleTree) : Nat := (tree.map (·.total)).getD 0

/-- A row of `merkle_leaves`. -/
structure MerkleLeafRow where
  epochIndex : Nat
  epochPubkey : Pubkey
  wallet : Pubkey
  coinMint : Pubkey
  amount : UInt64
  proof : List Bytes32
  deriving DecidableEq, Repr

/-- The rows of a tree: each entry with its proof. -/
def merkleLeafRows (env : KeeperEnv) (index : Nat) (tree : EpochMerkleTree) :
    Except MerkleError (List MerkleLeafRow) :=
  tree.entries.zipIdx.mapM fun (e, i) => do
    let proof ← getProof tree.toMerkleTree i
    return { epochIndex := index, epochPubkey := env.epochPdaFor index, wallet := e.wallet
             coinMint := env.coinMint, amount := e.amount, proof }

/-! ### What was pushed -/

/-- The row that `recordPayout` stores, with `$5::numeric / 1e6`. -/
def recordedItem (p : EpochPlanItem) : EpochPlanItem :=
  { p with amount := (perMillion p.amount).toNat }

/-- What `getPushedPayouts` makes of the rows: no `round(amount * 1e6)::bigint` has 64 bits. -/
def readPushed (rows : List EpochPlanItem) : Option (List EpochPlanItem) :=
  if ∀ r ∈ rows, r.amount < 2 ^ 63 then some rows else none

/-- `new Map(rows)`. -/
def pushedMap (rows : List EpochPlanItem) : List (Pubkey × Nat) :=
  fold (·.wallet) (fun r _ => r.amount) rows []

def pushedSum (pushed : List (Pubkey × Nat)) : Nat := (pushed.map (·.2)).sum

/-- A `Payout` event read from the chain: a wallet not there yet. -/
def addPayout (pushed : List (Pubkey × Nat)) (ev : EpochPlanItem) : List (Pubkey × Nat) :=
  if ev.wallet ∈ pushed.map (·.1) then pushed else pushed ++ [(ev.wallet, ev.amount)]

/-- The outcome of `reconcilePushed`: the rows where they add up to `pushed_amount`, else
the rows and the chain's events, where these do. -/
def reconcile (rows events : List EpochPlanItem) (pushedAmount : Nat) :
    Option (List (Pubkey × Nat)) :=
  if planTotal rows = pushedAmount then some (pushedMap rows)
  else
    let pushed := events.foldl addPayout (pushedMap rows)
    if pushedSum pushed = pushedAmount then some pushed else none

/-- The leaves `repairFinalizedBookkeeping` rebuilds: the plan less what was pushed. -/
def repairMerkle (env : KeeperEnv) (plan : List EpochPlanItem) (pushed : List (Pubkey × Nat)) :
    List EpochPlanItem :=
  sortByWallet env (remainingOf plan (pushed.map (·.1)))

/-- The rows `writeFinalized` inserts. -/
def finalizedRows (env : KeeperEnv) (index : Nat) (tree : Option EpochMerkleTree) :
    Except MerkleError (List MerkleLeafRow) :=
  match tree with
  | none => .ok []
  | some tree => merkleLeafRows env index tree

/-- The rows `repairFinalizedBookkeeping` writes, where it finds the posted root again. -/
def repairRows (env : KeeperEnv) (acc : Epoch) (plan rows events : List EpochPlanItem) :
    Option (List MerkleLeafRow) := do
  let rows ← readPushed rows
  let pushed ← reconcile rows events acc.pushedAmount.toNat
  let tree ← (epochTree env acc.index.toNat (repairMerkle env plan pushed)).toOption
  if treeRoot tree = acc.merkleRoot then (finalizedRows env acc.index.toNat tree).toOption else none

/-! ### Plans add up -/

section Items

variable {env : KeeperEnv}

@[simp] theorem planTotal_nil : planTotal [] = 0 := rfl

@[simp] theorem planTotal_cons (p : EpochPlanItem) (items : List EpochPlanItem) :
    planTotal (p :: items) = p.amount + planTotal items := by simp [planTotal]

@[simp] theorem planTotal_append (xs ys : List EpochPlanItem) :
    planTotal (xs ++ ys) = planTotal xs + planTotal ys := by simp [planTotal]

@[simp] theorem recordedItem_wallet (p : EpochPlanItem) : (recordedItem p).wallet = p.wallet := by
  obtain ⟨wallet, amount⟩ := p
  exact (rfl : (recordedItem ⟨wallet, amount⟩).wallet = wallet)

theorem planTotal_perm {xs ys : List EpochPlanItem} (h : xs.Perm ys) :
    planTotal xs = planTotal ys :=
  (h.map _).sum_eq

theorem perm_sortByWallet (items : List EpochPlanItem) : (sortByWallet env items).Perm items :=
  List.perm_insertionSort _ _

/-- A plan of an amount: distinct wallets, positive amounts that add up to it. -/
structure ValidPlan (plan : List EpochPlanItem) (total : Nat) : Prop where
  nodup : (plan.map (·.wallet)).Nodup
  pos : ∀ p ∈ plan, 0 < p.amount
  total : planTotal plan = total

theorem ValidPlan.perm {plan plan' : List EpochPlanItem} {total : Nat} (h : ValidPlan plan total)
    (hp : plan'.Perm plan) : ValidPlan plan' total where
  nodup := (hp.map _).nodup_iff.mpr h.nodup
  pos := fun p hmem => h.pos p (hp.mem_iff.mp hmem)
  total := (planTotal_perm hp).trans h.total

/-- Dropping the wallets without a share drops nothing of the amount. -/
theorem sum_filter_pos (shares : List (Pubkey × Nat)) :
    ((shares.filter (0 < ·.2)).map (·.2)).sum = (shares.map (·.2)).sum := by
  induction shares with
  | nil => rfl
  | cons e l ih =>
      by_cases h : 0 < e.2
      · simp [h, ih]
      · have h0 : e.2 = 0 := by omega
        simp [h0, ih]

/-- The plan of an amount is empty, or it pays out all of it. -/
theorem planItems_valid (eligible : List (Pubkey × Nat)) (h : (eligible.map (·.1)).Nodup)
    (total : Nat) :
    planItems env eligible total = [] ∨ ValidPlan (planItems env eligible total) total := by
  have hshares : computeShares eligible total 0 1 0 = some (splitShares eligible total 0) := by
    simp [computeShares, usdToCoinBaseUnits]
  unfold planItems
  rw [hshares]
  simp only
  rcases @sum_splitShares _ _ _ h total 0 with hnil | hsum
  · left
    rw [hnil]
    rfl
  right
  refine ValidPlan.perm ⟨?_, ?_, ?_⟩ (perm_sortByWallet _)
  · simp only [List.map_map, Function.comp_def]
    exact (nodup_splitShares eligible total 0).sublist (List.filter_sublist.map _)
  · intro p hp
    obtain ⟨e, he, rfl⟩ := List.mem_map.mp hp
    simpa using (List.mem_filter.mp he).2
  · refine Eq.trans ?_ ((sum_filter_pos _).trans hsum)
    simp [planTotal, Function.comp_def]

end Items

end IceMarkets.Keeper
