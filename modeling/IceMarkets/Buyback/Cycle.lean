import IceMarkets.Buyback.State

/-!
# IceMarkets.Buyback.Cycle

`convert_and_burn`: pull COIN from the fee router, sell it at the Peg Desk, forward the
proceeds through a swap route the keeper built, and burn the ICE bought.

The three CPIs are parameters (`Cpis`): the route is opaque to the program, and of the
other two the handler, too, only looks at the balances of its work accounts. Those are
read when the instruction starts and when they are reloaded.
-/

namespace IceMarkets.Buyback

/-! ### Rates -/

/-- ICE base units per 1 USDC, rounded down. -/
def ratePerUsdc (iceOut usdcIn : UInt64) : Option UInt64 :=
  if usdcIn = 0 then none
  else do
    let n ← checkedMul128 iceOut.toNat usdcUnit
    toU64 (n / usdcIn.toNat)

/-- The anchor only moves up, by at most `moveBps` of itself, towards a better rate. -/
def nextAnchor (anchor rate : UInt64) (moveBps : UInt16) : UInt64 :=
  if rate ≤ anchor then anchor
  else
    let step := max (UInt64.ofNat (anchor.toNat * moveBps.toNat / bpsDenom)) 1
    min (saturatingAdd anchor step) rate

/-- The lowest rate accepted at an anchor; a deviation is below `BPS_DENOM`. -/
def minRate (anchor : UInt64) (maxDeviationBps : UInt16) : UInt64 :=
  UInt64.ofNat (anchor.toNat * (bpsDenom - maxDeviationBps.toNat) / bpsDenom)

/-- What the route must at least spend of a sell's proceeds. -/
def minSpend (usdcOut : UInt64) : UInt64 :=
  UInt64.ofNat (usdcOut.toNat * (bpsDenom - minSpendToleranceBps) / bpsDenom)

/-- The part of a buyback vault a cycle may use. -/
def usableBalance (s : BuybackState) (vault : UInt64) : UInt64 :=
  UInt64.ofNat (vault.toNat * (bpsDenom - s.reserveBufferBps.toNat) / bpsDenom)

/-! ### The cycle -/

/-- The work accounts: ATAs of `bb_auth`. -/
structure Work where
  coin : TokenAccount
  usdc : TokenAccount
  ice : TokenAccount
  deriving DecidableEq, Repr

/-- What the programs called do to the work accounts: `fee_router::withdraw_for_buyback`,
`peg_desk::sell` and the swap route. -/
structure Cpis where
  withdrawForBuyback : UInt64 → Work → BuybackResult Work
  pegDeskSell : UInt64 → UInt64 → Work → BuybackResult Work
  invokeRoute : List UInt8 → Work → BuybackResult Work

/-- What a cycle's caller supplies, the accounts it starts from and the validator clock. -/
structure CycleInput where
  now : Int
  keeper : Pubkey
  coin : Pubkey
  coinAmount : UInt64
  minUsdcOut : UInt64
  minIceOut : UInt64
  routeData : List UInt8
  buybackVault : UInt64
  work : Work
  iceMint : Mint
  deriving DecidableEq, Repr

/-- The `Buyback` event; `usdcOut` is what the route spent. -/
structure BuybackEvent where
  coin : Pubkey
  coinAmount : UInt64
  usdcOut : UInt64
  iceBurned : UInt64
  rate : UInt64
  anchor : UInt64
  deriving DecidableEq, Repr

/-- What an accepted cycle leaves, and what its sell produced, which the event does not
tell. -/
structure CycleOutcome where
  state : BuybackState
  work : Work
  iceMint : Mint
  event : BuybackEvent
  sold : UInt64
  deriving DecidableEq, Repr

def handleConvertAndBurn (cpis : Cpis) (auth : Pubkey) (s : BuybackState) (x : CycleInput) :
    BuybackResult CycleOutcome := do
  require (s.paused = false) .paused
  require (0 < s.icePerUsdcAnchor) .unanchored
  require (0 < s.maxPerCycleUsdc) .cycleCapUnset
  require (s.isAdminOrKeeper x.keeper = true) .unauthorized
  require (x.routeData.length ≤ maxRouteDataLen) .routeTooLong
  require ((s.minIntervalSecs.toNat : Int) ≤ satSubI64 x.now s.lastCycleTs) .tooSoon
  let coinAmount := min x.coinAmount (usableBalance s x.buybackVault)
  require (0 < coinAmount) .zeroAmount
  -- 1) pull COIN
  let w₁ ← cpis.withdrawForBuyback coinAmount x.work
  require (saturatingSub w₁.coin.amount x.work.coin.amount = coinAmount) .withdrawMismatch
  -- 2) sell it; `bb_usdc` was last read at the start
  let w₂ ← cpis.pegDeskSell coinAmount x.minUsdcOut w₁
  let usdcOut := saturatingSub w₂.usdc.amount x.work.usdc.amount
  require (0 < usdcOut ∧ x.minUsdcOut ≤ usdcOut) .sellBelowMinimum
  require (0 < s.maxPerCycleUsdc → usdcOut ≤ s.maxPerCycleUsdc) .cycleCapExceeded
  -- 3) the route; `bb_ice` was last read at the start
  let w₃ ← cpis.invokeRoute x.routeData w₂
  let iceOut := saturatingSub w₃.ice.amount x.work.ice.amount
  let usdcSpent := saturatingSub w₂.usdc.amount w₃.usdc.amount
  require (max (minSpend usdcOut) 1 ≤ usdcSpent) .usdcUnderspent
  require (usdcSpent ≤ w₂.usdc.amount) .usdcOverspent
  require (usdcSpent ≤ s.maxPerCycleUsdc) .cycleCapExceeded
  require (w₃.coin.amount = w₂.coin.amount) .usdcOverspent
  require (0 < iceOut ∧ x.minIceOut ≤ iceOut) .slippageExceeded
  let rate ← okOr (ratePerUsdc iceOut usdcSpent) .mathOverflow
  require (0 < rate) .rateBelowAnchor
  require (minRate s.icePerUsdcAnchor s.maxDeviationBps ≤ rate) .rateBelowAnchor
  -- 4) burn everything bought
  let (iceMint, ice) ← liftToken (Token.burn x.iceMint w₃.ice auth iceOut)
  let anchor := nextAnchor s.icePerUsdcAnchor rate s.anchorMoveBps
  let totalUsdcOut ← okOr (checkedAdd s.totalUsdcOut usdcSpent) .mathOverflow
  let totalIceBurned ← okOr (checkedAdd s.totalIceBurned iceOut) .mathOverflow
  .ok {
    state := { s with icePerUsdcAnchor := anchor, lastCycleTs := x.now, totalUsdcOut,
                      totalIceBurned }
    work := { w₃ with ice }
    iceMint
    event := { coin := x.coin, coinAmount, usdcOut := usdcSpent, iceBurned := iceOut, rate, anchor }
    sold := usdcOut }

end IceMarkets.Buyback
