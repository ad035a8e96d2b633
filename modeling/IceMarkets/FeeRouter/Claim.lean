import IceMarkets.FeeRouter.State
import Mathlib.Logic.Function.Basic

/-!
# IceMarkets.FeeRouter.Claim

The claims `claim_dbc`, `claim_dbc_surplus` and `claim_damm`, the split of `common.rs`
they end with, and the instructions that set the split and register pools.

The Meteora programs are not part of the repository: a claim CPI credits whatever it
credits (`Credit`) to the router's accounts. What the caller supplies is a `ClaimInput`.
-/

namespace IceMarkets.FeeRouter

/-! ### Configuration -/

def checkSplit (h b p : UInt16) : RouterResult Unit :=
  require (h.toNat + b.toNat + p.toNat = bpsDenom) .invalidSplit

structure InitializeRouterArgs where
  holdersBps : UInt16
  buybackBps : UInt16
  protocolBps : UInt16
  deriving DecidableEq, Repr

/-- The config `initialize_router` writes. The payer is the program's upgrade authority, if
the loader knows one (`require_upgrade_authority`). -/
def handleInitializeRouter (upgradeAuthority : Option Pubkey) (payer : Pubkey)
    (args : InitializeRouterArgs) : RouterResult RouterConfig := do
  require (∀ key ∈ upgradeAuthority, key = payer) .notUpgradeAuthority
  checkSplit args.holdersBps args.buybackBps args.protocolBps
  .ok {
    admin := payer
    keepers := Vector.replicate maxKeepers Pubkey.default
    keeperCount := 0
    holdersBps := args.holdersBps
    buybackBps := args.buybackBps
    protocolBps := args.protocolBps
    paused := false }

def handleSetSplit (config : RouterConfig) (admin : Pubkey)
    (holdersBps buybackBps protocolBps : UInt16) : RouterResult RouterConfig := do
  require (config.admin = admin) .unauthorized
  checkSplit holdersBps buybackBps protocolBps
  .ok { config with holdersBps, buybackBps, protocolBps }

def handleSetKeepers (config : RouterConfig) (admin : Pubkey) (keepers : List Pubkey) :
    RouterResult RouterConfig := do
  require (config.admin = admin) .unauthorized
  require (keepers.length ≤ maxKeepers) .tooManyKeepers
  .ok { config with
    keepers := Vector.ofFn fun i => (keepers[i.val]?).getD Pubkey.default
    keeperCount := UInt8.ofNat keepers.length }

def handlePause (config : RouterConfig) (admin : Pubkey) (paused : Bool) :
    RouterResult RouterConfig := do
  require (config.admin = admin) .unauthorized
  .ok { config with paused }

/-- `set_programs`, as far as the config below is concerned: the admin may be replaced. -/
def handleSetPrograms (config : RouterConfig) (admin newAdmin : Pubkey) :
    RouterResult RouterConfig := do
  require (config.admin = admin) .unauthorized
  .ok { config with admin := if newAdmin ≠ Pubkey.default then newAdmin else config.admin }

/-! ### Pools -/

/-- The pool account `register_pool` and `register_pool_admin` write, once the accounts are
validated. -/
def writePoolState (config : RouterConfig) (baseMint quoteMint : Pubkey) (feeBps : UInt16) :
    RouterResult PoolState := do
  require (config.paused = false) .paused
  require (feeBps ≤ maxFeeBps) .invalidFeeBps
  .ok {
    baseMint, quoteMint
    migrated := false
    dammPool := Pubkey.default
    dammPosition := Pubkey.default
    positionNftMint := Pubkey.default
    totalClaimed := 0
    totalToHolders := 0
    totalToBuyback := 0
    totalToProtocol := 0
    lastClaimTs := 0 }

/-- A DAMM v2 `Position`, as far as it is read. -/
structure DammPosition where
  pool : Pubkey
  nftMint : Pubkey
  deriving DecidableEq, Repr

/-- The accounts `record_migration` is given; the data of each is what its bytes parse to. -/
structure MigrationAccounts where
  authority : Pubkey
  /-- The DBC `VirtualPool`'s `is_migrated`. -/
  dbcPool : Option Bool
  dammPool : Pubkey
  dammPoolValid : Bool
  dammPosition : Pubkey
  position : Option DammPosition
  positionNft : TokenAccount
  deriving DecidableEq, Repr

/-- `force` skips the `is_migrated` check, for the admin only. -/
def checkMigrated (config : RouterConfig) (a : MigrationAccounts) (force : Bool) :
    RouterResult Unit :=
  if force = true ∧ a.authority = config.admin then .ok ()
  else do
    let isMigrated ← okOr a.dbcPool .invalidDbcAccount
    require (isMigrated = true) .notMigrated

def handleRecordMigration (config : RouterConfig) (router : Pubkey) (ps : PoolState)
    (a : MigrationAccounts) (force : Bool) : RouterResult PoolState := do
  require (a.positionNft.owner = router) .invalidPositionNft
  require (a.positionNft.amount = 1) .invalidPositionNft
  require (config.isAdminOrKeeper a.authority = true) .unauthorized
  checkMigrated config a force
  require (a.dammPoolValid = true) .invalidDammAccount
  let position ← okOr a.position .invalidDammAccount
  require (position.pool = a.dammPool) .invalidDammAccount
  require (a.positionNft.mint = position.nftMint) .invalidPositionNft
  .ok { ps with
    migrated := true, dammPool := a.dammPool, dammPosition := a.dammPosition
    positionNftMint := position.nftMint }

/-! ### The split -/

/-- Keepers and the admin may claim any time; anyone else only after the interval. -/
def checkClaimGate (config : RouterConfig) (caller : Pubkey) (lastClaimTs now : Int) :
    RouterResult Unit :=
  if config.isAdminOrKeeper caller then .ok ()
  else require (permissionlessClaimInterval < satSubI64 now lastClaimTs) .claimTooSoon

/-- Holders and buyback round down, protocol takes the remainder. -/
def splitAmounts (amount : UInt64) (holdersBps buybackBps : UInt16) :
    Option (UInt64 × UInt64 × UInt64) := do
  let holders := UInt64.ofNat (amount.toNat * holdersBps.toNat / bpsDenom)
  let buyback := UInt64.ofNat (amount.toNat * buybackBps.toNat / bpsDenom)
  let protocol ← checkedSub (← checkedSub amount holders) buyback
  some (holders, buyback, protocol)

/-- A transfer signed by the router, skipped for nothing. -/
def transferFromRouter (router : Pubkey) (source dst : TokenAccount) (amount : UInt64) :
    RouterResult (TokenAccount × TokenAccount) :=
  if amount = 0 then .ok (source, dst) else liftToken (Token.transfer source dst router amount)

/-- Move `amount` from the receiving account of a pool's coin into the three vaults, and
count it. -/
def split (s : Router) (pool : Pubkey) (ps : PoolState) (amount : UInt64) :
    RouterResult (Router × Option FeesSplit) :=
  if amount = 0 then
    .ok ({ s with pools := Function.update s.pools pool (some ps) }, none)
  else do
    let (holders, buyback, protocol) ←
      okOr (splitAmounts amount s.config.holdersBps s.config.buybackBps) .mathOverflow
    let mint := ps.quoteMint
    let (source, holderVault) ←
      transferFromRouter s.key (s.quoteRecv mint) (s.holderVault pool) holders
    let (source, buybackVault) ←
      transferFromRouter s.key source (s.buybackVault mint) buyback
    let (source, treasury) ← transferFromRouter s.key source (s.treasury mint) protocol
    let totalClaimed ← okOr (checkedAdd ps.totalClaimed amount) .mathOverflow
    let totalToHolders ← okOr (checkedAdd ps.totalToHolders holders) .mathOverflow
    let totalToBuyback ← okOr (checkedAdd ps.totalToBuyback buyback) .mathOverflow
    let totalToProtocol ← okOr (checkedAdd ps.totalToProtocol protocol) .mathOverflow
    let ps := { ps with totalClaimed, totalToHolders, totalToBuyback, totalToProtocol }
    .ok ({ s with
        pools := Function.update s.pools pool (some ps)
        quoteRecv := Function.update s.quoteRecv mint source
        holderVault := Function.update s.holderVault pool holderVault
        buybackVault := Function.update s.buybackVault mint buybackVault
        treasury := Function.update s.treasury mint treasury },
      some { pool, holders, buyback, protocol })

/-! ### Claims -/

/-- What a claim CPI credits to the router: quote to the receiving account, base to the
treasury. -/
structure Credit where
  quote : UInt64
  base : UInt64
  deriving DecidableEq, Repr

/-- What a claim's caller supplies, the validator clock and the CPI's outcome. -/
structure ClaimInput where
  now : Int
  caller : Pubkey
  pool : Pubkey
  credit : Credit
  deriving DecidableEq, Repr

/-- A claim's events. -/
structure ClaimEvents where
  claimed : FeesClaimed
  split : Option FeesSplit
  deriving DecidableEq, Repr

/-- `credit` into an account, by somebody else's transfer. -/
def creditAccount (a : TokenAccount) (amount : UInt64) : RouterResult TokenAccount :=
  match checkedAdd a.amount amount with
  | some credited => .ok { a with amount := credited }
  | none => .error (.token .overflow)

/-- Run the CPI and reload: the accounts and the quote amount the router sees arrive. -/
def receiveQuote (s : Router) (mint : Pubkey) (amount : UInt64) :
    RouterResult (Router × UInt64) := do
  let recv ← creditAccount (s.quoteRecv mint) amount
  .ok ({ s with quoteRecv := Function.update s.quoteRecv mint recv },
    saturatingSub recv.amount (s.quoteRecv mint).amount)

/-- `receiveQuote` for the base side, which goes to the treasury. -/
def receiveBase (s : Router) (mint : Pubkey) (amount : UInt64) :
    RouterResult (Router × UInt64) := do
  let treasury ← creditAccount (s.treasury mint) amount
  .ok ({ s with treasury := Function.update s.treasury mint treasury },
    saturatingSub treasury.amount (s.treasury mint).amount)

/-- The pool account a claim names. -/
def loadPool (s : Router) (pool : Pubkey) : RouterResult PoolState :=
  liftAnchor (match s.pools pool with
    | some ps => .ok ps
    | none => .error .accountNotInitialized)

def handleClaimDbc (s : Router) (x : ClaimInput) : RouterResult (Router × ClaimEvents) := do
  let ps ← loadPool s x.pool
  require (s.config.paused = false) .paused
  checkClaimGate s.config x.caller ps.lastClaimTs x.now
  let (s, baseAmount) ← receiveBase s ps.baseMint x.credit.base
  let (s, quoteAmount) ← receiveQuote s ps.quoteMint x.credit.quote
  let (s, ev) ← split s x.pool { ps with lastClaimTs := x.now } quoteAmount
  .ok (s, { claimed := { pool := x.pool, source := .dbc, quoteAmount, baseAmount }, split := ev })

def handleClaimDbcSurplus (s : Router) (x : ClaimInput) : RouterResult (Router × ClaimEvents) := do
  let ps ← loadPool s x.pool
  require (s.config.paused = false) .paused
  require (s.config.isAdminOrKeeper x.caller = true) .unauthorized
  let (s, quoteAmount) ← receiveQuote s ps.quoteMint x.credit.quote
  let (s, ev) ← split s x.pool ps quoteAmount
  .ok (s, { claimed := { pool := x.pool, source := .surplus, quoteAmount, baseAmount := 0 }
            split := ev })

/-- The caller also shows the token account that holds the position's NFT. -/
def handleClaimDamm (s : Router) (x : ClaimInput) (positionNft : TokenAccount) :
    RouterResult (Router × ClaimEvents) := do
  let ps ← loadPool s x.pool
  require (ps.migrated = true) .migrationNotRecorded
  require (positionNft.mint = ps.positionNftMint) .invalidPositionNft
  require (positionNft.owner = s.key) .invalidPositionNft
  require (s.config.paused = false) .paused
  checkClaimGate s.config x.caller ps.lastClaimTs x.now
  let (s, baseAmount) ← receiveBase s ps.baseMint x.credit.base
  let (s, quoteAmount) ← receiveQuote s ps.quoteMint x.credit.quote
  let (s, ev) ← split s x.pool { ps with lastClaimTs := x.now } quoteAmount
  .ok (s, { claimed := { pool := x.pool, source := .damm, quoteAmount, baseAmount }, split := ev })

end IceMarkets.FeeRouter
