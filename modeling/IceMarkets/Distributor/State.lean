import IceMarkets.Ledger

/-!
# IceMarkets.Distributor.State

Constants, error codes and accounts of the `distributor` program (`constants.rs`,
`errors.rs`, `state.rs`, `events.rs`).

Everything is about one epoch. `EpochEnv` fixes the addresses its accounts derive
from and the code around the program: the hash, the derivations and the
`fee_router` instruction that funds an epoch, whose effect on the ledger is left
arbitrary. Bumps are left out.
-/

namespace IceMarkets.Distributor

/-! ### Constants -/

/-- `BPS_DENOM`. -/
def bpsDenom : Nat := 10000

/-- `MAX_KEEPERS`. -/
def maxKeepers : Nat := 8

/-- `MAX_PUSH_ITEMS`: recipients of one push. -/
def maxPushItems : Nat := 12

/-- `MAX_PROOF_LEN`. -/
def maxProofLen : Nat := 32

/-- `SWEEP_DELAY_SECS`: claims close, and sweeps open, this long after `end_ts`. -/
def sweepDelaySecs : Int := 180 * 24 * 60 * 60

/-- `MAX_EPOCH_AGE_SECS`. -/
def maxEpochAgeSecs : Int := 30 * 86400

/-- `PAYOUT_PUSH` and `PAYOUT_CLAIM`. -/
inductive PayoutKind
  | push
  | claim
  deriving DecidableEq, Repr

/-! ### Error codes -/

/-- `DistError`. -/
inductive DistError
  | unauthorized
  | paused
  | tooManyKeepers
  | invalidWindow
  | zeroAmount
  | fundingMismatch
  | invalidSource
  | missingRouterAccounts
  | invalidFeeRouter
  | tooManyItems
  | accountsMismatch
  | invalidDestination
  | exceedsRemainder
  | pushCapExceeded
  | alreadyFinalized
  | notFinalized
  | invalidProof
  | proofTooLong
  | claimWindowClosed
  | sweepTooEarly
  | invalidTreasury
  | mathOverflow
  | invalidBps
  | notUpgradeAuthority
  deriving DecidableEq, Repr

/-- Results of the program's instructions. -/
abbrev DistResult (α : Type) := Result DistError α

/-! ### Accounts -/

/-- PDA `["dist"]`. -/
structure DistConfig where
  admin : Pubkey
  keepers : Vector Pubkey maxKeepers
  keeperCount : UInt8
  feeRouter : Pubkey
  maxPushPerEpochBps : UInt16
  paused : Bool
  deriving DecidableEq, Repr

namespace DistConfig

def isKeeper (c : DistConfig) (key : Pubkey) : Bool :=
  let n := min c.keeperCount.toNat maxKeepers
  (c.keepers.toList.take n).any (· = key)

def isAdminOrKeeper (c : DistConfig) (key : Pubkey) : Bool := key = c.admin || c.isKeeper key

end DistConfig

/-- PDA `["epoch", pool, index]`. `twabTotal` is a `u128`. -/
structure Epoch where
  pool : Pubkey
  index : UInt32
  coinMint : Pubkey
  startTs : Int
  endTs : Int
  totalAmount : UInt64
  pushedAmount : UInt64
  merkleRoot : Bytes32
  merkleTotal : UInt64
  claimedAmount : UInt64
  eligibleHolders : UInt32
  twabTotal : Nat
  finalized : Bool
  deriving DecidableEq, Repr

/-- PDA `["claimed", epoch, wallet]`: its existence means already claimed. -/
structure Claimed where
  epoch : Pubkey
  wallet : Pubkey
  amount : UInt64
  deriving DecidableEq, Repr

/-- The accounts of one epoch, and the token accounts it may pay. -/
structure Distribution where
  config : DistConfig
  epoch : Option Epoch
  claimed : List Claimed
  ledger : Ledger

/-- What a `withdraw_for_epoch` CPI is given. -/
structure RouterCall where
  feeRouterProgram : Pubkey
  routerConfig : Pubkey
  poolState : Pubkey
  holderVault : Pubkey
  amount : UInt64
  deriving DecidableEq, Repr

/-- The addresses of one epoch and what surrounds the program. Addresses derived
from different seeds differ: the epoch's vault is neither another owner's
associated account nor the router's treasury. -/
structure EpochEnv where
  epochKey : Pubkey
  coinMint : Pubkey
  /-- The COIN associated account of the epoch. -/
  vault : Pubkey
  tokenProgram : Pubkey
  /-- The COIN associated account of a wallet. -/
  ata : Pubkey → Pubkey
  /-- PDA `["epoch", pool, index]`. -/
  epochAddress : Pubkey → UInt32 → Pubkey
  /-- PDA `["pool", pool]` of a router. -/
  routerPoolState : Pubkey → Pubkey → Pubkey
  /-- PDA `["treasury", coin_mint]` of a router. -/
  routerTreasury : Pubkey → Pubkey
  withdrawForEpoch : RouterCall → Ledger → Option Ledger
  keccak256 : List UInt8 → Bytes32
  ata_ne_vault : ∀ wallet, wallet ≠ epochKey → ata wallet ≠ vault
  treasury_ne_vault : ∀ router, routerTreasury router ≠ vault
  /-- The router may pay into the vault, not change whose it is. -/
  withdraw_holds : ∀ call L L', withdrawForEpoch call L = some L' →
    ∀ mint owner, L.Holds vault mint owner → L'.Holds vault mint owner

/-! ### Events -/

/-- The `EpochOpened` event. -/
structure EpochOpened where
  pool : Pubkey
  index : UInt32
  total : UInt64
  holders : UInt32
  deriving DecidableEq, Repr

/-- The `Payout` event. -/
structure Payout where
  pool : Pubkey
  epoch : Pubkey
  wallet : Pubkey
  coinMint : Pubkey
  amount : UInt64
  kind : PayoutKind
  deriving DecidableEq, Repr

/-- The `EpochFinalized` event. -/
structure EpochFinalized where
  pool : Pubkey
  index : UInt32
  merkleRoot : Bytes32
  remainder : UInt64
  deriving DecidableEq, Repr

/-- The `EpochSwept` event. -/
structure EpochSwept where
  pool : Pubkey
  index : UInt32
  amount : UInt64
  treasury : Pubkey
  deriving DecidableEq, Repr

end IceMarkets.Distributor
