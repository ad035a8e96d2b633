import IceMarkets.Anchor

/-!
# IceMarkets.PegDesk.State

Constants, error codes and accounts of the `peg_desk` program
(`constants.rs`, `errors.rs`, `state.rs`).

Fields that no handler reads (bumps, padding, `hedge_vault`, `symbol` and
`decimals`, which only seed PDAs and metadata) are left out. Status, oracle kind
and quote scale stay the raw `u8` the accounts store: a handler may meet a byte
outside the enumeration and has a branch for it.
-/

namespace IceMarkets.PegDesk

/-! ### Constants -/

/-- `PRICE_SCALE`: prices are `u64` at 1e8. -/
def priceScale : Nat := 100000000

/-- `BPS`. -/
def bps : Nat := 10000

/-- `COIN_DECIMALS`. -/
def coinDecimals : Nat := 6

/-- `USDC_DECIMALS`. -/
def usdcDecimals : Nat := 6

/-- `MAX_KEEPERS`. -/
def maxKeepers : Nat := 8

/-- `MAX_LEGS`. -/
def maxLegs : Nat := 5

/-- `MAX_SPREAD_BPS`: hard ceiling on the effective spread, so `bid` never goes to zero. -/
def maxSpreadBps : UInt16 := 5000

def statusOpen : UInt8 := 0
def statusClosed : UInt8 := 1
def statusHalted : UInt8 := 2

def quoteUsd : UInt8 := 0
def quoteUsc : UInt8 := 1
def quoteEur : UInt8 := 2

/-- `DEFAULT_MAX_MOVE_BPS`. -/
def defaultMaxMoveBps : UInt16 := 500

/-- `DEFAULT_MIN_INTERVAL`, seconds of validator time between accepted posts. -/
def defaultMinInterval : UInt32 := 30

/-- `MAX_FUTURE_SKEW_SECS`. -/
def maxFutureSkewSecs : Int := 10

/-- `DAILY_WINDOW_SECS`. -/
def dailyWindowSecs : Int := 86400

/-- `MAX_DEVIATION_WINDOWS`. -/
def maxDeviationWindows : Nat := 20

/-! ### Error codes -/

/-- `PegDeskError`. -/
inductive PegDeskError
  | paused
  | marketClosed
  | marketHalted
  | staleOracle
  | oracleNotMonotonic
  | confidenceTooWide
  | slippageExceeded
  | perTxCapExceeded
  | supplyCapExceeded
  | reserveInsufficient
  | reserveRatioTooLow
  | invalidOracleKind
  | invalidFeed
  | moveTooLarge
  | tooSoon
  | unauthorized
  | mathOverflow
  | invalidLegs
  | invalidSymbol
  | invalidParams
  | tooManyKeepers
  | invalidStatus
  | zeroAmount
  | nonPositivePrice
  | dailyMintCapExceeded
  | dailyRedeemCapExceeded
  | priceDeviationTooLarge
  | notUpgradeAuthority
  deriving DecidableEq, Repr

/-- Results of the program's instructions. -/
abbrev DeskResult (α : Type) := Result PegDeskError α

/-! ### Accounts -/

/-- PDA `["config"]`. -/
structure GlobalConfig where
  admin : Pubkey
  pendingAdmin : Pubkey
  keepers : Vector Pubkey maxKeepers
  keeperCount : UInt8
  treasury : Pubkey
  reserveMint : Pubkey
  globalPause : Bool
  maxConfBps : UInt16
  reserveWarnBps : UInt16
  reserveHaltBps : UInt16
  redeemCapExempt : Pubkey
  deriving DecidableEq, Repr

namespace GlobalConfig

def isAdmin (c : GlobalConfig) (key : Pubkey) : Bool := c.admin = key

def isKeeper (c : GlobalConfig) (key : Pubkey) : Bool :=
  let n := min c.keeperCount.toNat maxKeepers
  (c.keepers.toList.take n).any (· = key)

def isAdminOrKeeper (c : GlobalConfig) (key : Pubkey) : Bool := c.isAdmin key || c.isKeeper key

end GlobalConfig

/-- `OracleKind`. -/
inductive OracleKind
  | pythPull
  | switchboard
  | keeperSigned
  | composite
  deriving DecidableEq, Repr

/-- `OracleKind as u8`. -/
def OracleKind.toU8 : OracleKind → UInt8
  | .pythPull => 0
  | .switchboard => 1
  | .keeperSigned => 2
  | .composite => 3

def OracleKind.fromU8 (v : UInt8) : Option OracleKind :=
  if v = 0 then some .pythPull
  else if v = 1 then some .switchboard
  else if v = 2 then some .keeperSigned
  else if v = 3 then some .composite
  else none

/-- Every kind is read back from the byte it is stored as, and from no other. -/
theorem OracleKind.fromU8_eq_some {v : UInt8} {k : OracleKind} :
    OracleKind.fromU8 v = some k ↔ v = k.toU8 := by
  constructor
  · intro h
    unfold OracleKind.fromU8 at h
    split_ifs at h <;> cases h <;> assumption
  · intro hx
    obtain rfl := hx
    cases k <;> rfl

/-- One leg of a Composite (index) coin. -/
structure IndexLeg where
  commodity : Pubkey
  weightBps : UInt16
  deriving DecidableEq, Repr

/-- PDA `["cmdty", symbol]`. -/
structure Commodity where
  coinMint : Pubkey
  oracleKind : UInt8
  sessionKind : UInt8
  status : UInt8
  feedId : Bytes32
  feedAccount : Pubkey
  fxFeedId : Bytes32
  fxFeedAccount : Pubkey
  quoteScale : UInt8
  baseSpreadBps : UInt16
  closedSpreadBps : UInt16
  confMultBps : UInt16
  maxAgeOpen : UInt32
  maxAgeClosed : UInt32
  supplyCap : UInt64
  perTxCap : UInt64
  lastPublishTime : Int
  lastPrice : UInt64
  reserveVault : Pubkey
  reserveBalanceCached : UInt64
  legs : Vector IndexLeg maxLegs
  legCount : UInt8
  pythMinSignatures : UInt8
  dailyMintCap : UInt64
  dailyRedeemCap : UInt64
  windowStart : Int
  windowMinted : UInt64
  windowRedeemed : UInt64
  maxDeviationBps : UInt16
  deviationWindowSecs : UInt32
  anchorPrice : UInt64
  anchorTs : Int
  deriving DecidableEq, Repr

namespace Commodity

/-- Max oracle age for the current status: `max_age_open` only while Open. -/
def maxAge (c : Commodity) : UInt32 :=
  if c.status = statusOpen then c.maxAgeOpen else c.maxAgeClosed

def oracleKindEnum (c : Commodity) : Option OracleKind := OracleKind.fromU8 c.oracleKind

def activeLegs (c : Commodity) : List IndexLeg :=
  c.legs.toList.take (min c.legCount.toNat maxLegs)

/-- Store the daily window. -/
def setWindow (c : Commodity) (start : Int) (minted redeemed : UInt64) : Commodity :=
  { c with windowStart := start, windowMinted := minted, windowRedeemed := redeemed }

@[simp] theorem setWindow_windowStart (c : Commodity) (start : Int) (minted redeemed : UInt64) :
    (c.setWindow start minted redeemed).windowStart = start := rfl

@[simp] theorem setWindow_windowMinted (c : Commodity) (start : Int) (minted redeemed : UInt64) :
    (c.setWindow start minted redeemed).windowMinted = minted := rfl

@[simp] theorem setWindow_windowRedeemed (c : Commodity) (start : Int) (minted redeemed : UInt64) :
    (c.setWindow start minted redeemed).windowRedeemed = redeemed := rfl

/-- `c'` trades on the same terms as `c`: they differ at most in the running
state a trade updates (window counters, oracle marks, anchor, cached balance). -/
def SameTerms (c c' : Commodity) : Prop :=
  c' = { c with
    lastPublishTime := c'.lastPublishTime, lastPrice := c'.lastPrice
    reserveBalanceCached := c'.reserveBalanceCached
    windowStart := c'.windowStart, windowMinted := c'.windowMinted
    windowRedeemed := c'.windowRedeemed
    anchorPrice := c'.anchorPrice, anchorTs := c'.anchorTs }

namespace SameTerms

variable {c c' c'' : Commodity}

theorem refl (c : Commodity) : SameTerms c c := rfl

theorem trans (h : SameTerms c c') (h' : SameTerms c' c'') : SameTerms c c'' := by
  unfold SameTerms at *
  rw [h', h]

theorem symm (h : SameTerms c c') : SameTerms c' c := by
  unfold SameTerms at *
  rw [h]

theorem setWindow (c : Commodity) (start : Int) (minted redeemed : UInt64) :
    SameTerms c (c.setWindow start minted redeemed) := rfl

theorem maxDeviationBps (h : SameTerms c c') : c'.maxDeviationBps = c.maxDeviationBps := by rw [h]

theorem deviationWindowSecs (h : SameTerms c c') :
    c'.deviationWindowSecs = c.deviationWindowSecs := by rw [h]

theorem dailyMintCap (h : SameTerms c c') : c'.dailyMintCap = c.dailyMintCap := by rw [h]

theorem dailyRedeemCap (h : SameTerms c c') : c'.dailyRedeemCap = c.dailyRedeemCap := by rw [h]

theorem oracleKind (h : SameTerms c c') : c'.oracleKind = c.oracleKind := by rw [h]

theorem quoteScale (h : SameTerms c c') : c'.quoteScale = c.quoteScale := by rw [h]

end SameTerms

end Commodity

/-- PDA `["kp", commodity]`. Prices are already USD at 1e8. -/
structure KeeperPrice where
  commodity : Pubkey
  price : UInt64
  conf : UInt64
  publishTime : Int
  sourceHash : Bytes32
  maxMoveBps : UInt16
  minInterval : UInt32
  lastUpdateTs : Int
  deriving DecidableEq, Repr

end IceMarkets.PegDesk
