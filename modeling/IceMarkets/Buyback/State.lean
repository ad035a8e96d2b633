import IceMarkets.Anchor

/-!
# IceMarkets.Buyback.State

Constants, error codes and the state of the `buyback` program, and its instructions that
set the parameters or empty a work account (`constants.rs`, `errors.rs`, `state.rs`,
`initialize.rs`).

The addresses of the other programs and of the two mints only pin accounts, and are left
out.
-/

namespace IceMarkets.Buyback

/-! ### Constants -/

/-- `BPS_DENOM`. -/
def bpsDenom : Nat := 10000

/-- `MAX_KEEPERS`. -/
def maxKeepers : Nat := 8

/-- `MIN_SPEND_TOLERANCE_BPS`. -/
def minSpendToleranceBps : Nat := 100

/-- `MAX_ROUTE_DATA_LEN`, bytes. -/
def maxRouteDataLen : Nat := 1024

/-- `USDC_UNIT`: one USDC in base units, the anchor's denominator. -/
def usdcUnit : Nat := 1000000

/-- `BuybackError`. -/
inductive BuybackError
  | unauthorized
  | paused
  | tooManyKeepers
  | invalidBps
  | zeroAmount
  | routeTooLong
  | slippageExceeded
  | rateBelowAnchor
  | withdrawMismatch
  | sellBelowMinimum
  | usdcOverspent
  | tooSoon
  | cycleCapExceeded
  | mathOverflow
  | unanchored
  | cycleCapUnset
  | usdcUnderspent
  | notUpgradeAuthority
  deriving DecidableEq, Repr

/-- Results of the program's instructions. -/
abbrev BuybackResult (α : Type) := Result BuybackError α

/-! ### State -/

/-- PDA `["buyback"]`. -/
structure BuybackState where
  admin : Pubkey
  keepers : Vector Pubkey maxKeepers
  keeperCount : UInt8
  reserveBufferBps : UInt16
  maxPerCycleUsdc : UInt64
  minIntervalSecs : UInt32
  lastCycleTs : Int
  icePerUsdcAnchor : UInt64
  maxDeviationBps : UInt16
  anchorMoveBps : UInt16
  paused : Bool
  totalUsdcOut : UInt64
  totalIceBurned : UInt64
  deriving DecidableEq, Repr

def BuybackState.isAdminOrKeeper (s : BuybackState) (key : Pubkey) : Bool :=
  let n := min s.keeperCount.toNat maxKeepers
  key = s.admin || (s.keepers.toList.take n).any (· = key)

/-! ### Parameters -/

def checkBps (v : UInt16) : BuybackResult Unit := require (v.toNat < bpsDenom) .invalidBps

structure InitializeArgs where
  reserveBufferBps : UInt16
  maxPerCycleUsdc : UInt64
  maxDeviationBps : UInt16
  anchorMoveBps : UInt16
  minIntervalSecs : UInt32
  icePerUsdcAnchor : UInt64
  deriving DecidableEq, Repr

/-- The state `initialize` writes. The admin is the program's upgrade authority, if the
loader knows one (`require_upgrade_authority`). -/
def handleInitialize (upgradeAuthority : Option Pubkey) (admin : Pubkey) (args : InitializeArgs) :
    BuybackResult BuybackState := do
  require (∀ key ∈ upgradeAuthority, key = admin) .notUpgradeAuthority
  checkBps args.reserveBufferBps
  checkBps args.maxDeviationBps
  checkBps args.anchorMoveBps
  require (0 < args.icePerUsdcAnchor) .unanchored
  require (0 < args.maxPerCycleUsdc) .cycleCapUnset
  .ok {
    admin
    keepers := Vector.replicate maxKeepers Pubkey.default
    keeperCount := 0
    reserveBufferBps := args.reserveBufferBps
    maxPerCycleUsdc := args.maxPerCycleUsdc
    minIntervalSecs := args.minIntervalSecs
    lastCycleTs := 0
    icePerUsdcAnchor := args.icePerUsdcAnchor
    maxDeviationBps := args.maxDeviationBps
    anchorMoveBps := args.anchorMoveBps
    paused := false
    totalUsdcOut := 0
    totalIceBurned := 0 }

/-- A `None` leaves the parameter as it is. -/
structure SetParamsArgs where
  reserveBufferBps : Option UInt16
  maxPerCycleUsdc : Option UInt64
  maxDeviationBps : Option UInt16
  anchorMoveBps : Option UInt16
  minIntervalSecs : Option UInt32
  icePerUsdcAnchor : Option UInt64
  paused : Option Bool
  keepers : Option (List Pubkey)
  newAdmin : Option Pubkey
  deriving DecidableEq, Repr

def handleSetParams (s : BuybackState) (admin : Pubkey) (args : SetParamsArgs) :
    BuybackResult BuybackState := do
  require (s.admin = admin) .unauthorized
  require (∀ v ∈ args.reserveBufferBps, v.toNat < bpsDenom) .invalidBps
  require (∀ v ∈ args.maxPerCycleUsdc, 0 < v) .cycleCapUnset
  require (∀ v ∈ args.maxDeviationBps, v.toNat < bpsDenom) .invalidBps
  require (∀ v ∈ args.anchorMoveBps, v.toNat < bpsDenom) .invalidBps
  require (∀ v ∈ args.icePerUsdcAnchor, 0 < v) .unanchored
  require (∀ keepers ∈ args.keepers, keepers.length ≤ maxKeepers) .tooManyKeepers
  .ok { s with
    reserveBufferBps := args.reserveBufferBps.getD s.reserveBufferBps
    maxPerCycleUsdc := args.maxPerCycleUsdc.getD s.maxPerCycleUsdc
    maxDeviationBps := args.maxDeviationBps.getD s.maxDeviationBps
    anchorMoveBps := args.anchorMoveBps.getD s.anchorMoveBps
    minIntervalSecs := args.minIntervalSecs.getD s.minIntervalSecs
    icePerUsdcAnchor := args.icePerUsdcAnchor.getD s.icePerUsdcAnchor
    paused := args.paused.getD s.paused
    keepers := match args.keepers with
      | some keepers => Vector.ofFn fun i => (keepers[i.val]?).getD Pubkey.default
      | none => s.keepers
    keeperCount := match args.keepers with
      | some keepers => UInt8.ofNat keepers.length
      | none => s.keeperCount
    admin := args.newAdmin.getD s.admin }

/-- Move `amount` of a work account to one of the admin's; 0 moves everything. -/
def handleSweepWorkAccount (s : BuybackState) (auth admin : Pubkey)
    (source destination : TokenAccount)
    (amount : UInt64) : BuybackResult (TokenAccount × TokenAccount) := do
  require (s.admin = admin) .unauthorized
  require (destination.owner = s.admin) .unauthorized
  let amount := if amount = 0 then source.amount else min amount source.amount
  require (0 < amount) .zeroAmount
  liftToken (Token.transfer source destination auth amount)

end IceMarkets.Buyback
