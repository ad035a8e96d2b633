import IceMarkets.Distributor.State

/-!
# IceMarkets.Distributor.Instructions

The instructions on one epoch: `open_epoch`, `push_payouts`, `finalize_epoch`,
`claim` and `sweep_unclaimed`, and the Merkle verification of `merkle.rs`.

Accounts that Anchor's constraints pin (the config and epoch PDAs, by `has_one`
the coin mint, and the associated vault) are taken from the state and the
environment. What the caller chooses is each instruction's input.
-/

namespace IceMarkets.Distributor

/-! ### Merkle verification -/

/-- `keccak256(epoch || wallet || amount_le_u64)`. -/
def leaf (keccak256 : List UInt8 → Bytes32) (epoch wallet : Pubkey) (amount : UInt64) : Bytes32 :=
  keccak256 (epoch.bytes ++ wallet.bytes ++ toLeBytes amount)

/-- `keccak256(min(a, b) || max(a, b))`. -/
def hashPair (keccak256 : List UInt8 → Bytes32) (a b : Bytes32) : Bytes32 :=
  if Bytes32.le a b then keccak256 (a.bytes ++ b.bytes) else keccak256 (b.bytes ++ a.bytes)

def verify (keccak256 : List UInt8 → Bytes32) (proof : List Bytes32) (root leaf : Bytes32) : Bool :=
  decide (proof.foldl (hashPair keccak256) leaf = root)

/-! ### Opening -/

structure OpenEpochArgs where
  pool : Pubkey
  index : UInt32
  startTs : Int
  endTs : Int
  totalAmount : UInt64
  eligibleHolders : UInt32
  twabTotal : Nat
  deriving DecidableEq, Repr

/-- `remaining_accounts[0..2]` of router mode. -/
structure RouterAccounts where
  feeRouterProgram : Pubkey
  executable : Bool
  routerConfig : Pubkey
  deriving DecidableEq, Repr

structure OpenEpochInput where
  now : Int
  keeper : Pubkey
  sourceVault : Pubkey
  sourceAuthority : Pubkey
  /-- Whether `source_authority` signs. -/
  authoritySigns : Bool
  router : Option RouterAccounts
  args : OpenEpochArgs
  deriving DecidableEq, Repr

/-- `token::mint = coin_mint` on the token account at `key`. -/
def loadTokenAccount (env : EpochEnv) (L : Ledger) (key : Pubkey) : DistResult TokenAccount :=
  liftAnchor (match L key with
    | some a => if a.mint = env.coinMint then .ok a else .error .constraintTokenAccount
    | none => .error .accountNotInitialized)

/-- `associated_token::authority = epoch` on the epoch vault. -/
def loadVault (env : EpochEnv) (L : Ledger) : DistResult TokenAccount := do
  let a ← loadTokenAccount env L env.vault
  liftAnchor (if a.owner = env.epochKey then .ok a else .error .constraintTokenAccount)

/-- Pull `total_amount` out of the pool's holder vault through the fee router. -/
def fundFromRouter (env : EpochEnv) (cfg : DistConfig) (x : OpenEpochInput) (owner : Pubkey)
    (L : Ledger) : DistResult Ledger := do
  let router ← okOr x.router .missingRouterAccounts
  require (router.feeRouterProgram = cfg.feeRouter) .invalidFeeRouter
  require (router.executable = true) .invalidFeeRouter
  let expected := env.routerPoolState cfg.feeRouter x.args.pool
  require (x.sourceAuthority = expected) .invalidSource
  require (owner = expected) .invalidSource
  -- a failing CPI fails the transaction
  okOr (env.withdrawForEpoch
    { feeRouterProgram := router.feeRouterProgram, routerConfig := router.routerConfig
      poolState := x.sourceAuthority, holderVault := x.sourceVault
      amount := x.args.totalAmount } L) .invalidSource

def handleOpenEpoch (env : EpochEnv) (s : Distribution) (x : OpenEpochInput) :
    DistResult (Distribution × EpochOpened) := do
  let cfg := s.config
  liftAnchor (if s.epoch.isSome then .error .accountAlreadyInUse else .ok ())
  liftAnchor (if env.epochAddress x.args.pool x.args.index = env.epochKey then .ok ()
    else .error .constraintSeeds)
  let L ← liftAnchor (s.ledger.initIfNeeded env.vault env.coinMint env.epochKey)
  let source ← loadTokenAccount env L x.sourceVault
  require (cfg.paused = false) .paused
  require (cfg.isAdminOrKeeper x.keeper = true) .unauthorized
  require (x.args.startTs < x.args.endTs) .invalidWindow
  require (x.args.endTs ≤ x.now ∧ satSubI64 x.now maxEpochAgeSecs ≤ x.args.endTs) .invalidWindow
  require (0 < x.args.totalAmount) .zeroAmount
  let vaultBefore := L.amount env.vault
  let L' ← (if x.authoritySigns = true ∧ source.owner = x.sourceAuthority then
      liftToken (L.transfer x.sourceVault env.vault x.sourceAuthority x.args.totalAmount)
    else fundFromRouter env cfg x source.owner L : DistResult Ledger)
  require (L'.amount env.vault - vaultBefore = x.args.totalAmount.toNat) .fundingMismatch
  .ok ({ s with
      epoch := some {
        pool := x.args.pool, index := x.args.index, coinMint := env.coinMint
        startTs := x.args.startTs, endTs := x.args.endTs, totalAmount := x.args.totalAmount
        pushedAmount := 0, merkleRoot := Bytes32.fill 0, merkleTotal := 0, claimedAmount := 0
        eligibleHolders := x.args.eligibleHolders, twabTotal := x.args.twabTotal
        finalized := false }
      ledger := L' },
    { pool := x.args.pool, index := x.args.index, total := x.args.totalAmount
      holders := x.args.eligibleHolders })

/-! ### Pushing -/

structure PayoutItem where
  wallet : Pubkey
  amount : UInt64
  deriving DecidableEq, Repr

/-- `remaining_accounts[i]`: what is read of it besides its token account. -/
structure DestInfo where
  key : Pubkey
  isWritable : Bool
  owner : Pubkey
  deriving DecidableEq, Repr

structure PushInput where
  keeper : Pubkey
  items : List PayoutItem
  dests : List DestInfo
  deriving DecidableEq, Repr

/-- The summing loop: every amount positive, no overflow. -/
def sumItems : List PayoutItem → UInt64 → DistResult UInt64
  | [], sum => .ok sum
  | it :: items, sum => do
      require (0 < it.amount) .zeroAmount
      let sum ← okOr (checkedAdd sum it.amount) .mathOverflow
      sumItems items sum

/-- The paying loop, over the items and their destinations. -/
def payItems (env : EpochEnv) : List (PayoutItem × DestInfo) → Ledger → DistResult Ledger
  | [], L => .ok L
  | (it, dest) :: rest, L => do
      require (dest.isWritable = true) .invalidDestination
      require (dest.owner = env.tokenProgram) .invalidDestination
      require (dest.key ≠ env.vault) .invalidDestination
      let ta ← okOr (L dest.key) .invalidDestination
      require (ta.mint = env.coinMint) .invalidDestination
      require (ta.owner = it.wallet) .invalidDestination
      let L ← liftToken (L.transfer env.vault dest.key env.epochKey it.amount)
      payItems env rest L

/-- The push cap: computed in `u128` and cut to a `u64`. -/
def pushCap (cfg : DistConfig) (e : Epoch) : Nat :=
  e.totalAmount.toNat * cfg.maxPushPerEpochBps.toNat / bpsDenom % 2 ^ 64

/-- The epoch account, which an instruction other than `open_epoch` finds. -/
def loadEpoch (s : Distribution) : DistResult Epoch :=
  liftAnchor (match s.epoch with | some e => .ok e | none => .error .accountNotInitialized)

def handlePushPayouts (env : EpochEnv) (s : Distribution) (x : PushInput) :
    DistResult (Distribution × List Payout) := do
  let cfg := s.config
  let e ← loadEpoch s
  let _ ← loadVault env s.ledger
  require (cfg.paused = false) .paused
  require (cfg.isAdminOrKeeper x.keeper = true) .unauthorized
  require (x.items.length ≤ maxPushItems) .tooManyItems
  require (x.dests.length = x.items.length) .accountsMismatch
  require (e.finalized = false) .alreadyFinalized
  let sum ← sumItems x.items 0
  let remainder ← okOr (checkedSub e.totalAmount e.pushedAmount) .mathOverflow
  require (sum ≤ remainder) .exceedsRemainder
  let newPushed ← okOr (checkedAdd e.pushedAmount sum) .mathOverflow
  require (newPushed.toNat ≤ pushCap cfg e) .pushCapExceeded
  let L ← payItems env (x.items.zip x.dests) s.ledger
  .ok ({ s with epoch := some { e with pushedAmount := newPushed }, ledger := L },
    x.items.map fun it =>
      { pool := e.pool, epoch := env.epochKey, wallet := it.wallet, coinMint := e.coinMint
        amount := it.amount, kind := .push })

/-! ### Finalizing, claiming, sweeping -/

/-- Post the Merkle root for the un-pushed remainder. -/
def handleFinalizeEpoch (s : Distribution) (keeper : Pubkey) (merkleRoot : Bytes32)
    (merkleTotal : UInt64) : DistResult (Distribution × EpochFinalized) := do
  let cfg := s.config
  let e ← loadEpoch s
  require (cfg.paused = false) .paused
  require (cfg.isAdminOrKeeper keeper = true) .unauthorized
  require (e.finalized = false) .alreadyFinalized
  let remainder ← okOr (checkedSub e.totalAmount e.pushedAmount) .mathOverflow
  require (merkleTotal ≤ remainder) .exceedsRemainder
  .ok ({ s with epoch := some { e with merkleRoot, merkleTotal, finalized := true } },
    { pool := e.pool, index := e.index, merkleRoot, remainder })

structure ClaimInput where
  now : Int
  wallet : Pubkey
  amount : UInt64
  proof : List Bytes32
  deriving DecidableEq, Repr

/-- The double-claim guard: `init` fails where the receipt exists. -/
def checkUnclaimed (s : Distribution) (wallet : Pubkey) : DistResult Unit :=
  liftAnchor (if s.claimed.any (·.wallet = wallet) then .error .accountAlreadyInUse else .ok ())

def handleClaim (env : EpochEnv) (s : Distribution) (x : ClaimInput) :
    DistResult (Distribution × Payout) := do
  let e ← loadEpoch s
  checkUnclaimed s x.wallet
  let _ ← loadVault env s.ledger
  let L ← liftAnchor (s.ledger.initIfNeeded (env.ata x.wallet) env.coinMint x.wallet)
  require (s.config.paused = false) .paused
  require (0 < x.amount) .zeroAmount
  require (x.proof.length ≤ maxProofLen) .proofTooLong
  require (e.finalized = true) .notFinalized
  require (x.now ≤ satAddI64 e.endTs sweepDelaySecs) .claimWindowClosed
  require (verify env.keccak256 x.proof e.merkleRoot
    (leaf env.keccak256 env.epochKey x.wallet x.amount) = true) .invalidProof
  let newClaimed ← okOr (checkedAdd e.claimedAmount x.amount) .mathOverflow
  require (newClaimed ≤ e.merkleTotal) .exceedsRemainder
  let L ← liftToken (L.transfer env.vault (env.ata x.wallet) env.epochKey x.amount)
  .ok ({ s with
      epoch := some { e with claimedAmount := newClaimed }
      claimed := { epoch := env.epochKey, wallet := x.wallet, amount := x.amount } :: s.claimed
      ledger := L },
    { pool := e.pool, epoch := env.epochKey, wallet := x.wallet, coinMint := e.coinMint
      amount := x.amount, kind := .claim })

structure SweepInput where
  now : Int
  admin : Pubkey
  treasury : Pubkey
  deriving DecidableEq, Repr

/-- Move whatever is left in the vault to the treasury once claims have closed. -/
def handleSweepUnclaimed (env : EpochEnv) (s : Distribution) (x : SweepInput) :
    DistResult (Distribution × EpochSwept) := do
  require (x.admin = s.config.admin) .unauthorized
  let e ← loadEpoch s
  let vault ← loadVault env s.ledger
  let _ ← loadTokenAccount env s.ledger x.treasury
  require (satAddI64 e.endTs sweepDelaySecs < x.now) .sweepTooEarly
  let expected := env.routerTreasury s.config.feeRouter
  require (x.treasury = expected) .invalidTreasury
  let L ← (if 0 < vault.amount then
      liftToken (s.ledger.transfer env.vault x.treasury env.epochKey vault.amount)
    else .ok s.ledger : DistResult Ledger)
  .ok ({ s with epoch := some { e with finalized := true }, ledger := L },
    { pool := e.pool, index := e.index, amount := vault.amount, treasury := expected })

end IceMarkets.Distributor
