import IceMarkets.Anchor

/-!
# IceMarkets.FeeRouter.State

Constants, error codes and accounts of the `fee_router` program (`constants.rs`,
`errors.rs`, `state.rs`), as far as claims and splits read them.

The router's token accounts are PDAs or ATAs found by a pool or a mint. `Router` holds
them as maps: several pools with one quote mint share one receiving account.
-/

namespace IceMarkets.FeeRouter

/-! ### Constants -/

/-- `BPS_DENOM`. -/
def bpsDenom : Nat := 10000

/-- `MAX_KEEPERS`. -/
def maxKeepers : Nat := 8

/-- `PERMISSIONLESS_CLAIM_INTERVAL`, seconds. -/
def permissionlessClaimInterval : Int := 900

/-- `MAX_FEE_BPS`. -/
def maxFeeBps : UInt16 := 1000

/-- `FeesClaimed.source`. -/
inductive FeeSource
  | dbc
  | surplus
  | damm
  deriving DecidableEq, Repr

/-- `RouterError`. -/
inductive RouterError
  | unauthorized
  | paused
  | invalidSplit
  | tooManyKeepers
  | invalidDbcAccount
  | notMigrated
  | migrationNotRecorded
  | invalidDammAccount
  | invalidPositionNft
  | claimTooSoon
  | mathOverflow
  | invalidFeeBps
  | notUpgradeAuthority
  deriving DecidableEq, Repr

/-- Results of the program's instructions. -/
abbrev RouterResult (α : Type) := Result RouterError α

/-! ### Accounts -/

/-- PDA `["router"]`, the authority of every token account below. -/
structure RouterConfig where
  admin : Pubkey
  keepers : Vector Pubkey maxKeepers
  keeperCount : UInt8
  holdersBps : UInt16
  buybackBps : UInt16
  protocolBps : UInt16
  paused : Bool
  deriving DecidableEq, Repr

namespace RouterConfig

def isKeeper (c : RouterConfig) (key : Pubkey) : Bool :=
  let n := min c.keeperCount.toNat maxKeepers
  (c.keepers.toList.take n).any (· = key)

def isAdminOrKeeper (c : RouterConfig) (key : Pubkey) : Bool := key = c.admin || c.isKeeper key

end RouterConfig

/-- PDA `["pool", dbc_pool]`. -/
structure PoolState where
  baseMint : Pubkey
  quoteMint : Pubkey
  migrated : Bool
  dammPool : Pubkey
  dammPosition : Pubkey
  positionNftMint : Pubkey
  totalClaimed : UInt64
  totalToHolders : UInt64
  totalToBuyback : UInt64
  totalToProtocol : UInt64
  lastClaimTs : Int
  deriving DecidableEq, Repr

/-- The router's accounts: pools and holder vaults by DBC pool, the other token accounts
by mint. -/
structure Router where
  key : Pubkey
  config : RouterConfig
  pools : Pubkey → Option PoolState
  quoteRecv : Pubkey → TokenAccount
  holderVault : Pubkey → TokenAccount
  buybackVault : Pubkey → TokenAccount
  treasury : Pubkey → TokenAccount

/-- The `FeesClaimed` event. -/
structure FeesClaimed where
  pool : Pubkey
  source : FeeSource
  quoteAmount : UInt64
  baseAmount : UInt64
  deriving DecidableEq, Repr

/-- The `FeesSplit` event. -/
structure FeesSplit where
  pool : Pubkey
  holders : UInt64
  buyback : UInt64
  protocol : UInt64
  deriving DecidableEq, Repr

end IceMarkets.FeeRouter
