import IceMarkets.FeeRouter.Layout
import IceMarkets.FeeRouter.Conservation
import IceMarkets.Ledger

/-!
# IceMarkets.FeeRouter.Program

The whole `fee_router` program on the ledger: `initialize_router`, the registrations, the
claims, `record_migration`, the three `withdraw_*` and the admin's instructions, with the
account constraints that `IceMarkets.FeeRouter.Claim` takes for granted.

The router's token accounts are at derived addresses of a ledger that other programs
transfer on. A claim loads them, runs its handler and writes them back.
-/

namespace IceMarkets.FeeRouter

/-! ### Accounts -/

/-- The router's token accounts: the receiving ATA of a coin, the vault of a pool, and the
buyback vault and the treasury of a mint. -/
inductive Vault
  | recv (mint : Pubkey)
  | holder (pool : Pubkey)
  | buyback (mint : Pubkey)
  | treasury (mint : Pubkey)
  deriving DecidableEq, Repr

/-- The mint or pool a vault is found by. -/
def Vault.key : Vault → Pubkey
  | recv mint | buyback mint | treasury mint => mint
  | holder pool => pool

/-- What surrounds the program: the addresses derived for it, and the mints and DBC pools there
are. Those derive different addresses from different seeds. -/
structure RouterEnv where
  /-- The program's id. -/
  id : Pubkey
  loader : Loader
  isAccount : Pubkey → Bool
  /-- PDA `["router"]`. -/
  key : Pubkey
  /-- PDA `["pool", dbc_pool]`. -/
  poolKey : Pubkey → Pubkey
  address : Vault → Pubkey
  /-- PDA `["dist_auth"]` of a distributor program. -/
  distAuth : Pubkey → Pubkey
  /-- PDA `["bb_auth"]` of a buyback program. -/
  bbAuth : Pubkey → Pubkey
  address_injective : ∀ v w, isAccount v.key = true → isAccount w.key = true →
    address v = address w → v = w

/-- The vault of a mint or pool that exists. -/
def Vault.Known (env : RouterEnv) (v : Vault) : Prop := env.isAccount v.key = true

/-- The authority of a vault. -/
def Vault.authority (env : RouterEnv) : Vault → Pubkey
  | holder pool => env.poolKey pool
  | _ => env.key

/-- The program ids of `RouterConfig`. -/
structure RouterPrograms where
  distributor : Pubkey
  buyback : Pubkey
  pegDesk : Pubkey
  deriving DecidableEq, Repr

/-- A pool's account with what registration writes beside the totals; `dbc_pool` is where it
is found. -/
structure PoolAccount extends PoolState where
  dbcConfig : Pubkey
  commodity : Pubkey
  creator : Pubkey
  feeBps : UInt16
  deriving DecidableEq, Repr

/-- The program's accounts and the ledger its token accounts are on. -/
structure RouterProgram where
  config : RouterConfig
  programs : RouterPrograms
  pools : Pubkey → Option PoolAccount
  ledger : Ledger

/-- What handlers see of a token account; no handler sees one that is missing. -/
def RouterProgram.account (env : RouterEnv) (s : RouterProgram) (v : Vault) : TokenAccount :=
  let missing : TokenAccount := { mint := Pubkey.default, owner := Pubkey.default, amount := 0 }
  if env.isAccount v.key then (s.ledger (env.address v)).getD missing else missing

/-- The accounts as the claims' handlers see them. -/
def RouterProgram.router (env : RouterEnv) (s : RouterProgram) : Router where
  key := env.key
  config := s.config
  pools := fun pool => (s.pools pool).map (·.toPoolState)
  quoteRecv := fun mint => s.account env (.recv mint)
  holderVault := fun pool => s.account env (.holder pool)
  buybackVault := fun mint => s.account env (.buyback mint)
  treasury := fun mint => s.account env (.treasury mint)

def Router.vault (r : Router) : Vault → TokenAccount
  | .recv mint => r.quoteRecv mint
  | .holder pool => r.holderVault pool
  | .buyback mint => r.buybackVault mint
  | .treasury mint => r.treasury mint

def loadPoolAccount (s : RouterProgram) (pool : Pubkey) : ProgramResult PoolAccount :=
  liftAnchor (match s.pools pool with
    | some acc => .ok acc
    | none => .error .accountNotInitialized)

/-- `token::mint = mint` on the token account at `key`. -/
def loadTokenAccount (L : Ledger) (key mint : Pubkey) : ProgramResult TokenAccount :=
  liftAnchor (match L key with
    | some a => if a.mint = mint then .ok a else .error .constraintTokenAccount
    | none => .error .accountNotInitialized)

/-- The mint or pool an instruction names is an account. -/
def loadKey (env : RouterEnv) (v : Vault) : Except AnchorError Unit :=
  if env.isAccount v.key then .ok () else .error .accountNotInitialized

/-- A vault with its `token::mint` and `token::authority`. -/
def loadVault (env : RouterEnv) (L : Ledger) (v : Vault) (mint : Pubkey) :
    ProgramResult TokenAccount := do
  liftAnchor (loadKey env v)
  let a ← loadTokenAccount L (env.address v) mint
  liftAnchor (if a.owner = v.authority env then .ok a else .error .constraintTokenAccount)

/-! ### Events -/

/-- The `PoolRegistered` event. -/
structure PoolRegistered where
  pool : Pubkey
  baseMint : Pubkey
  quoteMint : Pubkey
  commodity : Pubkey
  feeBps : UInt16
  deriving DecidableEq, Repr

/-- The `MigrationRecorded` event. -/
structure RouterMigrationRecorded where
  pool : Pubkey
  dammPool : Pubkey
  deriving DecidableEq, Repr

/-- `WITHDRAW_EPOCH`, `WITHDRAW_BUYBACK` and `WITHDRAW_TREASURY`. -/
inductive WithdrawKind
  | epoch
  | buyback
  | treasury
  deriving DecidableEq, Repr

/-- The `VaultWithdrawn` event. -/
structure VaultWithdrawn where
  vault : Pubkey
  mint : Pubkey
  destination : Pubkey
  amount : UInt64
  kind : WithdrawKind
  deriving DecidableEq, Repr

/-! ### Initialising and registering -/

/-- The config that `initialize_router` writes, with the ids of `args`. -/
def initializeRouter (env : RouterEnv) (program programData : RawAccount) (payer : Pubkey)
    (args : InitializeRouterArgs) (programs : RouterPrograms) :
    ProgramResult (RouterConfig × RouterPrograms) := do
  require (program.key = env.id) (.shared .notUpgradeAuthority)
  requireUpgradeAuthority env.loader (.shared .notUpgradeAuthority) program programData payer
  -- the authority is checked: what is left of the handler knows of none
  let config ← liftRouter (handleInitializeRouter none payer args)
  .ok (config, programs)

/-- `init_if_needed` of a vault. -/
def initVault (env : RouterEnv) (L : Ledger) (v : Vault) (mint : Pubkey) :
    Except AnchorError Ledger := do
  loadKey env v
  L.initIfNeeded (env.address v) mint (v.authority env)

/-- The token accounts `register_pool` creates: the holder vault is new, the others may be
shared with other pools. -/
def initVaults (env : RouterEnv) (L : Ledger) (pool baseMint quoteMint : Pubkey) :
    Except AnchorError Ledger := do
  loadKey env (.holder pool)
  let L ← L.init (env.address (.holder pool)) quoteMint (env.poolKey pool)
  let L ← initVault env L (.buyback quoteMint) quoteMint
  let L ← initVault env L (.treasury quoteMint) quoteMint
  let L ← initVault env L (.treasury baseMint) baseMint
  initVault env L (.recv quoteMint) quoteMint

/-- Both registrations; `creator` is the check that sets them apart. -/
def registerWith (env : RouterEnv) (s : RouterProgram) (a : RegisterAccounts) (feeBps : UInt16)
    (creator : ProgramResult Pubkey) : ProgramResult (RouterProgram × PoolRegistered) := do
  require (a.dbcPool.owner = dbcProgramId) (.shared .invalidDbcAccount)
  require (a.dbcConfig.owner = dbcProgramId) (.shared .invalidDbcAccount)
  let pool := a.dbcPool.key
  liftAnchor (if (s.pools pool).isSome then .error .accountAlreadyInUse else .ok ())
  let L ← liftAnchor (initVaults env s.ledger pool a.baseMint a.quoteMint)
  let creator ← creator
  let ps ← liftRouter (writePoolState s.config a.baseMint a.quoteMint feeBps)
  let acc : PoolAccount :=
    { ps with dbcConfig := a.dbcConfig.key, commodity := a.commodity.key, creator, feeBps }
  .ok ({ s with pools := Function.update s.pools pool (some acc), ledger := L },
    { pool, baseMint := a.baseMint, quoteMint := a.quoteMint, commodity := a.commodity.key
      feeBps })

/-- Permissionless: the bytes of the accounts are validated. -/
def handleRegisterPool (env : RouterEnv) (s : RouterProgram) (a : RegisterAccounts)
    (feeBps : UInt16) : ProgramResult (RouterProgram × PoolRegistered) :=
  registerWith env s a feeBps (validatePermissionless env.key s.programs.pegDesk a)

/-- The admin registers without validating, and names the creator. -/
def handleRegisterPoolAdmin (env : RouterEnv) (s : RouterProgram) (a : RegisterAccounts)
    (feeBps : UInt16) (creator : Pubkey) : ProgramResult (RouterProgram × PoolRegistered) :=
  registerWith env s a feeBps do
    require (a.payer = s.config.admin) (.shared .unauthorized)
    .ok creator

/-- `record_migration` with the owners of its accounts. -/
def recordMigration (env : RouterEnv) (s : RouterProgram) (x : MigrationInput) (force : Bool) :
    ProgramResult (RouterProgram × RouterMigrationRecorded) := do
  let pool := x.dbcPool.key
  let acc ← loadPoolAccount s pool
  require (x.dbcPool.owner = dbcProgramId) (.shared .invalidDbcAccount)
  require (x.dammPool.owner = dammV2ProgramId) (.shared .invalidDammAccount)
  require (x.dammPosition.owner = dammV2ProgramId) (.shared .invalidDammAccount)
  let ps ← liftRouter (handleRecordMigration s.config env.key acc.toPoolState x.accounts force)
  .ok ({ s with pools := Function.update s.pools pool (some { acc with toPoolState := ps }) },
    { pool, dammPool := x.dammPool.key })

/-! ### Claims -/

/-- The three claims. -/
inductive ClaimKind
  | dbc
  | surplus
  | damm (positionNft : TokenAccount)
  deriving DecidableEq, Repr

namespace ClaimKind

def handle (kind : ClaimKind) (r : Router) (x : ClaimInput) :
    RouterResult (Router × ClaimEvents) :=
  match kind with
  | dbc => handleClaimDbc r x
  | surplus => handleClaimDbcSurplus r x
  | damm positionNft => handleClaimDamm r x positionNft

/-- The token accounts a claim may write, with their mints. -/
def vaults (kind : ClaimKind) (pool : Pubkey) (ps : PoolState) : List (Vault × Pubkey) :=
  let quote : List (Vault × Pubkey) :=
    [(.recv ps.quoteMint, ps.quoteMint), (.holder pool, ps.quoteMint),
      (.buyback ps.quoteMint, ps.quoteMint), (.treasury ps.quoteMint, ps.quoteMint)]
  match kind with
  | surplus => quote
  | dbc | damm _ => (.treasury ps.baseMint, ps.baseMint) :: quote

end ClaimKind

def loadVaults (env : RouterEnv) (L : Ledger) : List (Vault × Pubkey) → ProgramResult Unit
  | [] => .ok ()
  | (v, mint) :: vs => do
      let _ ← loadVault env L v mint
      loadVaults env L vs

/-- Write accounts back to the ledger. -/
def storeVaults (env : RouterEnv) (r : Router) (L : Ledger) (vs : List Vault) : Ledger :=
  vs.foldl (fun L v => Function.update L (env.address v) (some (r.vault v))) L

/-- Write a pool's account back. -/
def storePool (s : RouterProgram) (pool : Pubkey) (acc : PoolAccount) (r : Router) :
    Pubkey → Option PoolAccount :=
  Function.update s.pools pool ((r.pools pool).map fun ps => { acc with toPoolState := ps })

def handleClaim (env : RouterEnv) (s : RouterProgram) (kind : ClaimKind) (x : ClaimInput) :
    ProgramResult (RouterProgram × ClaimEvents) := do
  let acc ← loadPoolAccount s x.pool
  let vs := kind.vaults x.pool acc.toPoolState
  loadVaults env s.ledger vs
  let (r, evs) ← liftRouter (kind.handle (s.router env) x)
  .ok ({ s with
      pools := storePool s x.pool acc r
      ledger := storeVaults env r s.ledger (vs.map Prod.fst) }, evs)

/-! ### Withdrawals -/

/-- What the three withdrawals share: after `checks`, an amount the vault holds goes to
another account of the mint. -/
def withdrawWith (env : RouterEnv) (s : RouterProgram) (kind : WithdrawKind) (v : Vault)
    (mint destination : Pubkey) (amount : UInt64) (checks : ProgramResult Unit) :
    ProgramResult (RouterProgram × VaultWithdrawn) := do
  let vault ← loadVault env s.ledger v mint
  let _ ← loadTokenAccount s.ledger destination mint
  checks
  require (amount ≤ vault.amount) .insufficientVault
  let L ← liftToken (s.ledger.transfer (env.address v) destination (v.authority env) amount)
  .ok ({ s with ledger := L }, { vault := env.address v, mint, destination, amount, kind })

/-- By CPI from the distributor. -/
def handleWithdrawForEpoch (env : RouterEnv) (s : RouterProgram)
    (distAuthority pool destination : Pubkey) (amount : UInt64) :
    ProgramResult (RouterProgram × VaultWithdrawn) := do
  let acc ← loadPoolAccount s pool
  withdrawWith env s .epoch (.holder pool) acc.quoteMint destination amount do
    require (s.config.paused = false) (.shared .paused)
    require (0 < amount) .zeroAmount
    require (distAuthority = env.distAuth s.programs.distributor) .invalidAuthority

/-- By CPI from the buyback program. -/
def handleWithdrawForBuyback (env : RouterEnv) (s : RouterProgram)
    (bbAuthority coinMint destination : Pubkey) (amount : UInt64) :
    ProgramResult (RouterProgram × VaultWithdrawn) :=
  withdrawWith env s .buyback (.buyback coinMint) coinMint destination amount do
    require (s.config.paused = false) (.shared .paused)
    require (0 < amount) .zeroAmount
    require (bbAuthority = env.bbAuth s.programs.buyback) .invalidAuthority

/-- The admin's, also while paused. -/
def handleWithdrawTreasury (env : RouterEnv) (s : RouterProgram)
    (admin mint destination : Pubkey) (amount : UInt64) :
    ProgramResult (RouterProgram × VaultWithdrawn) := do
  require (s.config.admin = admin) (.shared .unauthorized)
  withdrawWith env s .treasury (.treasury mint) mint destination amount do
    require (0 < amount) .zeroAmount

/-! ### The admin's instructions -/

/-- `set_split`, `set_keepers` and `pause` write the config alone. -/
def configureWith (s : RouterProgram) (config : RouterResult RouterConfig) :
    ProgramResult RouterProgram := do
  let config ← liftRouter config
  .ok { s with config }

def setSplit (s : RouterProgram) (admin : Pubkey) (holdersBps buybackBps protocolBps : UInt16) :
    ProgramResult RouterProgram :=
  configureWith s (handleSetSplit s.config admin holdersBps buybackBps protocolBps)

def setKeepers (s : RouterProgram) (admin : Pubkey) (keepers : List Pubkey) :
    ProgramResult RouterProgram :=
  configureWith s (handleSetKeepers s.config admin keepers)

def pause (s : RouterProgram) (admin : Pubkey) (paused : Bool) : ProgramResult RouterProgram :=
  configureWith s (handlePause s.config admin paused)

def setPrograms (s : RouterProgram) (admin : Pubkey) (programs : RouterPrograms)
    (newAdmin : Pubkey) : ProgramResult RouterProgram := do
  let config ← liftRouter (handleSetPrograms s.config admin newAdmin)
  .ok { s with config, programs }

end IceMarkets.FeeRouter
