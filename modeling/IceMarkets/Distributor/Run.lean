import IceMarkets.Distributor.Effect
import IceMarkets.Lib.Run
import Mathlib.Logic.Equiv.Basic

/-!
# IceMarkets.Distributor.Run

Runs of one epoch: the distributor's instructions on it, by any signers and with any
arguments, interleaved with changes of the configuration and with everything else
that happens to token accounts.

A step is labelled by what it did and when. `external` stands for every
transaction that is not one of the distributor's on this epoch: it may do anything
to the token accounts, except that nobody but the program moves tokens out of the
epoch's vault or changes what the vault is.
-/

namespace IceMarkets.Distributor

open Lts

/-- What a step did. -/
inductive Report
  | opened (total : UInt64)
  | pushed (items : List PayoutItem)
  | finalized (merkleRoot : Bytes32) (merkleTotal : UInt64)
  | claimed (wallet : Pubkey) (amount : UInt64)
  | swept (amount : UInt64)
  | configured (config : DistConfig)
  | external (donated : Nat)
  deriving DecidableEq, Repr

/-- A step's report and the validator clock it ran at. -/
structure Event where
  now : Int
  report : Report
  deriving DecidableEq, Repr

/-- `L'` is what `L` can become outside the program: the vault `donated` richer, and
still the token account it was. -/
structure External (env : EpochEnv) (L : Ledger) (donated : Nat) (L' : Ledger) : Prop where
  vault : L'.amount env.vault = L.amount env.vault + donated
  holds : ∀ mint owner, L.Holds env.vault mint owner → L'.Holds env.vault mint owner

/-- An accepted instruction. A claim is signed by its wallet, which the epoch's
derived address cannot be. -/
inductive Step (env : EpochEnv) : Distribution → Event → Distribution → Prop
  | openEpoch {s s' : Distribution} {x : OpenEpochInput} {ev : EpochOpened}
      (h : handleOpenEpoch env s x = .ok (s', ev)) :
      Step env s ⟨x.now, .opened x.args.totalAmount⟩ s'
  | pushPayouts {now : Int} {s s' : Distribution} {x : PushInput} {evs : List Payout}
      (h : handlePushPayouts env s x = .ok (s', evs)) : Step env s ⟨now, .pushed x.items⟩ s'
  | finalizeEpoch {now : Int} {s s' : Distribution} {keeper : Pubkey} {merkleRoot : Bytes32}
      {merkleTotal : UInt64} {ev : EpochFinalized}
      (h : handleFinalizeEpoch s keeper merkleRoot merkleTotal = .ok (s', ev)) :
      Step env s ⟨now, .finalized merkleRoot merkleTotal⟩ s'
  | claim {s s' : Distribution} {x : ClaimInput} {ev : Payout}
      (h : handleClaim env s x = .ok (s', ev)) (hsigner : x.wallet ≠ env.epochKey) :
      Step env s ⟨x.now, .claimed x.wallet x.amount⟩ s'
  | sweepUnclaimed {s s' : Distribution} {x : SweepInput} {ev : EpochSwept}
      (h : handleSweepUnclaimed env s x = .ok (s', ev)) : Step env s ⟨x.now, .swept ev.amount⟩ s'
  | configure {now : Int} {s : Distribution} {config : DistConfig} :
      Step env s ⟨now, .configured config⟩ { s with config }
  | elsewhere {now : Int} {s : Distribution} {donated : Nat} {L : Ledger}
      (h : External env s.ledger donated L) :
      Step env s ⟨now, .external donated⟩ { s with ledger := L }

/-- A step beside the validator clock, which never goes back. -/
abbrev ClockedStep (env : EpochEnv) : Distribution × Int → Event → Distribution × Int → Prop :=
  Clocked (Step env) Event.now

/-- A run of one epoch. -/
abbrev EpochRun (env : EpochEnv) : Distribution × Int → List Event → Distribution × Int → Prop :=
  Run (ClockedStep env)

theorem Step.clocked {env : EpochEnv} {s s' : Distribution} {ev : Event} {clock : Int}
    (h : Step env s ev s') (hle : clock ≤ ev.now) :
    ClockedStep env (s, clock) ev (s', ev.now) := ⟨h, hle, rfl⟩

/-! ### What a step does -/

section Inversion

variable {env : EpochEnv} {s s' : Distribution} {now : Int}

theorem Step.opened_inv {total : UInt64} (h : Step env s ⟨now, .opened total⟩ s') :
    ∃ x : OpenEpochInput, now = x.now ∧ total = x.args.totalAmount ∧ OpenEffect env s x s' := by
  cases h with
  | openEpoch h => exact ⟨_, rfl, rfl, handleOpenEpoch_ok h⟩

theorem Step.pushed_inv {items : List PayoutItem} (h : Step env s ⟨now, .pushed items⟩ s') :
    ∃ (x : PushInput) (e : Epoch), items = x.items ∧ PushEffect env s x e s' := by
  cases h with
  | @pushPayouts _ _ _ x _ h =>
      obtain ⟨e, h⟩ := handlePushPayouts_ok h
      exact ⟨x, e, rfl, h⟩

theorem Step.finalized_inv {merkleRoot : Bytes32} {merkleTotal : UInt64}
    (h : Step env s ⟨now, .finalized merkleRoot merkleTotal⟩ s') :
    ∃ e, FinalizeEffect s merkleRoot merkleTotal e s' := by
  cases h with
  | finalizeEpoch h => exact handleFinalizeEpoch_ok h

theorem Step.claimed_inv {wallet : Pubkey} {amount : UInt64}
    (h : Step env s ⟨now, .claimed wallet amount⟩ s') :
    ∃ (x : ClaimInput) (e : Epoch), now = x.now ∧ wallet = x.wallet ∧ amount = x.amount ∧
      x.wallet ≠ env.epochKey ∧ ClaimEffect env s x e s' := by
  cases h with
  | @claim _ _ x _ h hsigner =>
      obtain ⟨e, h⟩ := handleClaim_ok h
      exact ⟨x, e, rfl, rfl, rfl, hsigner, h⟩

theorem Step.swept_inv {amount : UInt64} (h : Step env s ⟨now, .swept amount⟩ s') :
    ∃ (x : SweepInput) (e : Epoch), now = x.now ∧ SweepEffect env s x e amount s' := by
  cases h with
  | @sweepUnclaimed _ _ x _ h =>
      obtain ⟨e, h⟩ := handleSweepUnclaimed_ok h
      exact ⟨x, e, rfl, h⟩

theorem Step.configured_inv {config : DistConfig} (h : Step env s ⟨now, .configured config⟩ s') :
    s' = { s with config } := by
  cases h with
  | configure => rfl

theorem Step.external_inv {donated : Nat} (h : Step env s ⟨now, .external donated⟩ s') :
    ∃ L, External env s.ledger donated L ∧ s' = { s with ledger := L } := by
  cases h with
  | elsewhere h => exact ⟨_, h, rfl⟩

end Inversion

/-! ### A sample epoch

Three wallets claim through a tree of three leaves, the third of them carried up. The
hash is given by its digests at the preimages the tree forms. -/

namespace Sample

def epochKey : Pubkey := Bytes32.fill 0x02

def vaultKey : Pubkey := Bytes32.fill 0x03

def walletA : Pubkey := Bytes32.fill 0x11

def walletB : Pubkey := Bytes32.fill 0x12

def walletC : Pubkey := Bytes32.fill 0x13

def walletD : Pubkey := Bytes32.fill 0x14

def leafA : Bytes32 :=
  ⟨[0xeb, 0xb6, 0xfd, 0xaf, 0xca, 0x76, 0xa5, 0xfe, 0x7e, 0x6a, 0x33, 0xe5, 0x20, 0xcf, 0x21, 0xe4,
    0xef, 0xd6, 0x4a, 0xc9, 0x9a, 0xbc, 0x16, 0xb2, 0x2d, 0xe1, 0x5a, 0x69, 0x45, 0x07,
      0x74, 0xc3], rfl⟩

def leafB : Bytes32 :=
  ⟨[0xa3, 0xe9, 0x2f, 0x59, 0x62, 0x6e, 0x40, 0x06, 0x06, 0x69, 0xac, 0x42, 0x7d, 0x88, 0x2f, 0x20,
    0x86, 0x71, 0x97, 0x38, 0x25, 0x85, 0xdf, 0xdf, 0xf7, 0xb7, 0x6f, 0xe1, 0x06, 0x2f,
      0x6d, 0xd3], rfl⟩

def leafC : Bytes32 :=
  ⟨[0xa1, 0xaf, 0x2b, 0x2b, 0x7f, 0x37, 0x35, 0xb2, 0xf4, 0x7e, 0x35, 0xd3, 0x77, 0x87, 0x33, 0xef,
    0x99, 0xf6, 0xb3, 0x85, 0xb5, 0x41, 0xc1, 0xa5, 0x4d, 0x42, 0x09, 0xbd, 0x9e, 0xb4,
      0xe7, 0x3a], rfl⟩

def nodeAB : Bytes32 :=
  ⟨[0xa2, 0x6b, 0x4c, 0x92, 0x9a, 0x5c, 0x3d, 0x32, 0x6e, 0x3d, 0x45, 0x31, 0xac, 0x7c, 0xe0, 0x03,
    0x50, 0x75, 0x38, 0x7b, 0xcc, 0x49, 0x89, 0x32, 0x59, 0x05, 0x7c, 0x97, 0x3d, 0x8d,
      0xcc, 0x4f], rfl⟩

def root : Bytes32 :=
  ⟨[0x55, 0x63, 0x46, 0x80, 0x51, 0x10, 0xab, 0x97, 0x58, 0x48, 0x0e, 0x23, 0x49, 0xb2, 0xf4, 0xaf,
    0x8c, 0x9c, 0x58, 0x1f, 0xc1, 0x96, 0x0c, 0x26, 0xec, 0x4b, 0x99, 0xb2, 0x16, 0xdb,
      0x70, 0x96], rfl⟩

/-- Keccak-256 at the preimages of the tree. -/
def digests : List (List UInt8 × Bytes32) :=
  [(epochKey.bytes ++ walletA.bytes ++ toLeBytes 10, leafA),
    (epochKey.bytes ++ walletB.bytes ++ toLeBytes 20, leafB),
    (epochKey.bytes ++ walletC.bytes ++ toLeBytes 30, leafC),
    (leafB.bytes ++ leafA.bytes, nodeAB), (leafC.bytes ++ nodeAB.bytes, root)]

def keccak256 (preimage : List UInt8) : Bytes32 :=
  match digests.find? (·.1 = preimage) with
  | some (_, digest) => digest
  | none => Bytes32.fill 0

/-- The epoch's associated account is the vault; any other wallet's is at its own key. -/
def ata (wallet : Pubkey) : Pubkey := Equiv.swap epochKey vaultKey wallet

def env : EpochEnv where
  epochKey := epochKey
  coinMint := Bytes32.fill 0x04
  vault := vaultKey
  tokenProgram := Bytes32.fill 0x05
  ata := ata
  epochAddress := fun _ _ => epochKey
  routerPoolState := fun _ _ => Bytes32.fill 0x06
  routerTreasury := fun _ => Bytes32.fill 0x07
  withdrawForEpoch := fun _ _ => none
  keccak256 := keccak256
  ata_ne_vault := by
    intro wallet hne h
    exact hne ((Equiv.swap epochKey vaultKey).injective (h.trans (Equiv.swap_apply_left _ _).symm))
  treasury_ne_vault := by
    intro _ h
    exact absurd h (by decide)
  withdraw_holds := nofun

def config : DistConfig where
  admin := Bytes32.fill 0x08
  keepers := Vector.replicate maxKeepers Pubkey.default
  keeperCount := 0
  feeRouter := Bytes32.fill 0x09
  maxPushPerEpochBps := 8000
  paused := false

/-- A token account of the coin. -/
def coinAccount (owner : Pubkey) (amount : UInt64) : TokenAccount :=
  { mint := Bytes32.fill 0x04, owner, amount }

/-- The funding account, an account of `walletD`, the treasury, and a vault somebody
created and gave 5 units. -/
def ledger : Ledger := fun key =>
  if key = Bytes32.fill 0x0a then some (coinAccount (Bytes32.fill 0x0b) 1000)
  else if key = walletD then some (coinAccount walletD 0)
  else if key = Bytes32.fill 0x07 then some (coinAccount (Bytes32.fill 0x09) 0)
  else if key = vaultKey then some (coinAccount epochKey 5)
  else none

def fresh : Distribution where
  config := config
  epoch := none
  claimed := []
  ledger := ledger

def openInput : OpenEpochInput where
  now := 1000
  keeper := Bytes32.fill 0x08
  sourceVault := Bytes32.fill 0x0a
  sourceAuthority := Bytes32.fill 0x0b
  authoritySigns := true
  router := none
  args := { pool := Bytes32.fill 0x0c, index := 0, startTs := 0, endTs := 900, totalAmount := 100
            eligibleHolders := 4, twabTotal := 1000 }

def pushInput : PushInput where
  keeper := Bytes32.fill 0x08
  items := [{ wallet := walletD, amount := 30 }]
  dests := [{ key := walletD, isWritable := true, owner := Bytes32.fill 0x05 }]

/-- Opened with 100 units. -/
def opened : Distribution :=
  (acceptedValue (handleOpenEpoch env fresh openInput) (by decide +kernel)).1

/-- 30 of them pushed to `walletD`. -/
def pushed : Distribution :=
  (acceptedValue (handlePushPayouts env opened pushInput) (by decide +kernel)).1

/-- 60 promised to the other three. -/
def finalized : Distribution :=
  (acceptedValue (handleFinalizeEpoch pushed (Bytes32.fill 0x08) root 60) (by decide +kernel)).1

end Sample

end IceMarkets.Distributor
