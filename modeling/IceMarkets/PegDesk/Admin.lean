import IceMarkets.PegDesk.Keeper
import IceMarkets.PegDesk.Trade

/-!
# IceMarkets.PegDesk.Admin

The instructions of `admin.rs` and `commodity.rs`, and `set_keeper_bounds`: who may
change the config and a commodity's terms, and to what.

Anchor has loaded the accounts: a handler gets the config, the commodity and the
signer, and returns what it writes. Events only announce the account written, and are
left out.
-/

namespace IceMarkets.PegDesk

/-! ### Constants -/

/-- `SYMBOL_LEN`. -/
def symbolLen : Nat := 12

/-- `MAX_NAME_LEN`. -/
def maxNameLen : Nat := 32

/-- `MAX_URI_LEN`. -/
def maxUriLen : Nat := 200

/-- `MAX_DEVIATION_BPS`. -/
def maxDeviationBpsLimit : UInt16 := 10000

/-- `SessionKind::from_u8(v).is_some()`. -/
def isSessionKind (v : UInt8) : Bool := v ≤ 4

/-- `Status::from_u8(v).is_some()`. -/
def isStatus (v : UInt8) : Bool := v ≤ 2

/-! ### The config -/

def requireAdmin (config : GlobalConfig) (key : Pubkey) : DeskResult Unit :=
  require (config.isAdmin key = true) .unauthorized

def requireAdminOrKeeper (config : GlobalConfig) (key : Pubkey) : DeskResult Unit :=
  require (config.isAdmin key = true ∨ config.isKeeper key = true) .unauthorized

/-- The config `initialize_config` writes. The payer is the program's upgrade authority, if
the loader knows one (`require_upgrade_authority`). -/
def handleInitializeConfig (upgradeAuthority : Option Pubkey) (payer reserveMint treasury : Pubkey)
    (reserveMintDecimals : UInt8) (maxConf reserveWarn reserveHalt : UInt16) :
    DeskResult GlobalConfig := do
  require (reserveMintDecimals.toNat = usdcDecimals) .invalidParams
  require (∀ key ∈ upgradeAuthority, key = payer) .notUpgradeAuthority
  require (0 < maxConf ∧ maxConf.toNat ≤ bps) .invalidParams
  require (reserveHalt ≤ reserveWarn) .invalidParams
  .ok {
    admin := payer
    pendingAdmin := Pubkey.default
    keepers := Vector.replicate maxKeepers Pubkey.default
    keeperCount := 0
    treasury
    reserveMint
    globalPause := false
    maxConfBps := maxConf
    reserveWarnBps := reserveWarn
    reserveHaltBps := reserveHalt
    redeemCapExempt := Pubkey.default }

/-- `arr[..keepers.len()].copy_from_slice(&keepers)` into default keys. -/
def keeperArray (keepers : List Pubkey) : Vector Pubkey maxKeepers :=
  Vector.ofFn fun i => (keepers[i.val]?).getD Pubkey.default

def handleSetKeepers (config : GlobalConfig) (admin : Pubkey) (keepers : List Pubkey) :
    DeskResult GlobalConfig := do
  require (config.admin = admin) .unauthorized
  require (keepers.length ≤ maxKeepers) .tooManyKeepers
  require (Pubkey.default ∉ keepers ∧ keepers.Nodup) .invalidParams
  .ok { config with keepers := keeperArray keepers, keeperCount := UInt8.ofNat keepers.length }

def handleProposeAdmin (config : GlobalConfig) (admin newAdmin : Pubkey) :
    DeskResult GlobalConfig := do
  require (config.admin = admin) .unauthorized
  .ok { config with pendingAdmin := newAdmin }

def handleAcceptAdmin (config : GlobalConfig) (pendingAdmin : Pubkey) :
    DeskResult GlobalConfig := do
  require (config.pendingAdmin = pendingAdmin) .unauthorized
  require (config.pendingAdmin ≠ Pubkey.default) .unauthorized
  .ok { config with admin := pendingAdmin, pendingAdmin := Pubkey.default }

/-- Keepers may only pause. -/
def handleSetGlobalPause (config : GlobalConfig) (authority : Pubkey) (paused : Bool) :
    DeskResult GlobalConfig := do
  if paused then requireAdminOrKeeper config authority else requireAdmin config authority
  .ok { config with globalPause := paused }

def handleSetRedeemCapExempt (config : GlobalConfig) (admin exempt : Pubkey) :
    DeskResult GlobalConfig := do
  require (config.admin = admin) .unauthorized
  .ok { config with redeemCapExempt := exempt }

/-! ### Commodities -/

/-- A 12-byte, zero-right-padded, upper-case ASCII symbol. -/
def validateSymbol (symbol : Vector UInt8 symbolLen) : Bool :=
  let body := symbol.toList.takeWhile (· ≠ 0)
  let pad := symbol.toList.dropWhile (· ≠ 0)
  body ≠ [] ∧ (∀ b ∈ body, (65 ≤ b ∧ b ≤ 90) ∨ (48 ≤ b ∧ b ≤ 57)) ∧ ∀ b ∈ pad, b = 0

structure CreateCommodityArgs where
  symbol : Vector UInt8 symbolLen
  oracleKind : UInt8
  sessionKind : UInt8
  feedId : Bytes32
  feedAccount : Pubkey
  fxFeedId : Bytes32
  fxFeedAccount : Pubkey
  quoteScale : UInt8
  baseSpreadBps : UInt16
  closedSpreadBps : UInt16
  confMultBps : UInt16
  maxAgeOpen : UInt32
  maxAgeClosed : UInt32
  supplyCap : UInt64
  perTxCap : UInt64
  pythMinSignatures : UInt8
  name : String
  uri : String

def validateMarketParams (baseSpread closedSpread : UInt16) (maxAgeOpen maxAgeClosed : UInt32)
    (supplyCap perTxCap : UInt64) : DeskResult Unit := do
  require (baseSpread ≤ maxSpreadBps ∧ closedSpread ≤ maxSpreadBps) .invalidParams
  require (0 < maxAgeOpen ∧ 0 < maxAgeClosed) .invalidParams
  require (perTxCap ≤ supplyCap) .invalidParams

/-- The commodity `create_commodity` writes, for a fresh coin mint and reserve vault. -/
def handleCreateCommodity (config : GlobalConfig) (admin reserveMint coinMint reserveVault : Pubkey)
    (args : CreateCommodityArgs) : DeskResult Commodity := do
  require (config.admin = admin) .unauthorized
  require (config.reserveMint = reserveMint) .invalidParams
  require (validateSymbol args.symbol = true) .invalidSymbol
  let kind ← okOr (OracleKind.fromU8 args.oracleKind) .invalidOracleKind
  require (isSessionKind args.sessionKind = true) .invalidParams
  require (args.quoteScale ≤ quoteEur) .invalidParams
  require (args.quoteScale = quoteEur → kind = .pythPull) .invalidOracleKind
  validateMarketParams args.baseSpreadBps args.closedSpreadBps args.maxAgeOpen args.maxAgeClosed
    args.supplyCap args.perTxCap
  require (args.name ≠ "" ∧ args.name.utf8ByteSize ≤ maxNameLen) .invalidParams
  require (args.uri.utf8ByteSize ≤ maxUriLen) .invalidParams
  .ok {
    coinMint
    oracleKind := args.oracleKind
    sessionKind := args.sessionKind
    status := statusOpen
    feedId := args.feedId
    feedAccount := args.feedAccount
    fxFeedId := args.fxFeedId
    fxFeedAccount := args.fxFeedAccount
    quoteScale := args.quoteScale
    baseSpreadBps := args.baseSpreadBps
    closedSpreadBps := args.closedSpreadBps
    confMultBps := args.confMultBps
    maxAgeOpen := args.maxAgeOpen
    maxAgeClosed := args.maxAgeClosed
    supplyCap := args.supplyCap
    perTxCap := args.perTxCap
    lastPublishTime := 0
    lastPrice := 0
    reserveVault
    reserveBalanceCached := 0
    legs := Vector.replicate maxLegs { commodity := Pubkey.default, weightBps := 0 }
    legCount := 0
    pythMinSignatures := args.pythMinSignatures
    dailyMintCap := 0
    dailyRedeemCap := 0
    windowStart := 0
    windowMinted := 0
    windowRedeemed := 0
    maxDeviationBps := 0
    deviationWindowSecs := 0
    anchorPrice := 0
    anchorTs := 0 }

/-- A `None` leaves the parameter as it is. -/
structure SetParamsArgs where
  sessionKind : Option UInt8
  feedId : Option Bytes32
  fxFeedId : Option Bytes32
  quoteScale : Option UInt8
  baseSpreadBps : Option UInt16
  closedSpreadBps : Option UInt16
  confMultBps : Option UInt16
  maxAgeOpen : Option UInt32
  maxAgeClosed : Option UInt32
  supplyCap : Option UInt64
  perTxCap : Option UInt64
  pythMinSignatures : Option UInt8
  dailyMintCap : Option UInt64
  dailyRedeemCap : Option UInt64
  maxDeviationBps : Option UInt16
  deviationWindowSecs : Option UInt32
  deriving DecidableEq, Repr

def handleSetCommodityParams (config : GlobalConfig) (authority : Pubkey) (c : Commodity)
    (args : SetParamsArgs) : DeskResult Commodity := do
  requireAdmin config authority
  require (∀ v ∈ args.sessionKind, isSessionKind v = true) .invalidParams
  require (∀ v ∈ args.quoteScale, v ≤ quoteEur) .invalidParams
  require (∀ v ∈ args.quoteScale, v = quoteEur → c.oracleKind = OracleKind.pythPull.toU8)
    .invalidOracleKind
  require (∀ v ∈ args.maxDeviationBps, v ≤ maxDeviationBpsLimit) .invalidParams
  let c' := { c with
    sessionKind := args.sessionKind.getD c.sessionKind
    feedId := args.feedId.getD c.feedId
    fxFeedId := args.fxFeedId.getD c.fxFeedId
    quoteScale := args.quoteScale.getD c.quoteScale
    baseSpreadBps := args.baseSpreadBps.getD c.baseSpreadBps
    closedSpreadBps := args.closedSpreadBps.getD c.closedSpreadBps
    confMultBps := args.confMultBps.getD c.confMultBps
    maxAgeOpen := args.maxAgeOpen.getD c.maxAgeOpen
    maxAgeClosed := args.maxAgeClosed.getD c.maxAgeClosed
    supplyCap := args.supplyCap.getD c.supplyCap
    perTxCap := args.perTxCap.getD c.perTxCap
    pythMinSignatures := args.pythMinSignatures.getD c.pythMinSignatures
    dailyMintCap := args.dailyMintCap.getD c.dailyMintCap
    dailyRedeemCap := args.dailyRedeemCap.getD c.dailyRedeemCap
    maxDeviationBps := args.maxDeviationBps.getD c.maxDeviationBps
    deviationWindowSecs := args.deviationWindowSecs.getD c.deviationWindowSecs }
  validateMarketParams c'.baseSpreadBps c'.closedSpreadBps c'.maxAgeOpen c'.maxAgeClosed
    c'.supplyCap c'.perTxCap
  .ok c'

/-- Admin or keeper: keepers post into fresh accounts. -/
def handleSetFeedAccount (config : GlobalConfig) (authority : Pubkey) (c : Commodity)
    (feedAccount fxFeedAccount : Pubkey) : DeskResult Commodity := do
  requireAdminOrKeeper config authority
  .ok { c with feedAccount, fxFeedAccount }

def handleClearPriceAnchor (config : GlobalConfig) (authority : Pubkey) (c : Commodity) :
    DeskResult Commodity := do
  requireAdmin config authority
  .ok { c with anchorPrice := 0, anchorTs := 0 }

/-- Keeper: Open to Closed and back, and anything to Halted; admin: any transition. -/
def handleSetStatus (config : GlobalConfig) (authority : Pubkey) (c : Commodity) (status : UInt8) :
    DeskResult Commodity := do
  requireAdminOrKeeper config authority
  require (isStatus status = true) .invalidStatus
  require (isStatus c.status = true) .invalidStatus
  require (config.isAdmin authority = true ∨ c.status = status ∨
    (c.status = statusOpen ∧ status = statusClosed) ∨
    (c.status = statusClosed ∧ status = statusOpen) ∨ status = statusHalted) .unauthorized
  .ok { c with status }

/-- The loop of `set_index_legs`, which returns the weights' sum: each leg is another
commodity, none twice, neither Composite nor EUR-quoted. -/
def checkLegs (env : Env) (commodityKey : Pubkey) :
    List Pubkey → List IndexLeg → List AccountInfo → DeskResult Nat
  | _, [], _ => .ok 0
  | seen, leg :: legs, info :: infos => do
      require (0 < leg.weightBps) .invalidLegs
      require (leg.commodity ≠ commodityKey) .invalidLegs
      require (leg.commodity ∉ seen) .invalidLegs
      require (info.key = leg.commodity) .invalidLegs
      let legC ← loadCommodity env info
      require (legC.oracleKind ≠ OracleKind.composite.toU8) .invalidLegs
      require (legC.quoteScale ≠ quoteEur) .invalidLegs
      let weightSum ← checkLegs env commodityKey (leg.commodity :: seen) legs infos
      .ok (leg.weightBps.toNat + weightSum)
  | _, _ :: _, [] => .error (.custom .invalidLegs)

/-- The leg array: the given legs, then default ones. -/
def legArray (legs : List IndexLeg) : Vector IndexLeg maxLegs :=
  Vector.ofFn fun i => (legs[i.val]?).getD { commodity := Pubkey.default, weightBps := 0 }

/-- Admin, Composite only. -/
def handleSetIndexLegs (env : Env) (config : GlobalConfig) (authority commodityKey : Pubkey)
    (c : Commodity) (legs : List IndexLeg) (remaining : List AccountInfo) :
    DeskResult Commodity := do
  requireAdmin config authority
  require (c.oracleKind = OracleKind.composite.toU8) .invalidOracleKind
  require (legs ≠ [] ∧ legs.length ≤ maxLegs) .invalidLegs
  require (legs.length ≤ remaining.length) .invalidLegs
  let weightSum ← checkLegs env commodityKey [] legs remaining
  require (weightSum = bps) .invalidLegs
  .ok { c with legs := legArray legs, legCount := UInt8.ofNat legs.length }

/-- Admin only. -/
def handleSetKeeperBounds (config : GlobalConfig) (admin : Pubkey) (kp : KeeperPrice)
    (maxMove : UInt16) (minInterval : UInt32) : DeskResult KeeperPrice := do
  require (config.admin = admin) .unauthorized
  require (1 ≤ minInterval) .invalidParams
  require (0 < maxMove ∧ maxMove.toNat ≤ bps) .invalidParams
  .ok { kp with maxMoveBps := maxMove, minInterval }

end IceMarkets.PegDesk
