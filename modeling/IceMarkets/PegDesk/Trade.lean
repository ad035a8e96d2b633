import IceMarkets.PegDesk.Oracle

/-!
# IceMarkets.PegDesk.Trade

The trading instructions of `trade.rs`: `buy`, `buy_exact_out`, `sell`,
`sweep_spread_fees` and `deposit_reserve`.

A `Desk` holds the accounts of one commodity that Anchor's constraints pin (the
config and commodity PDAs, and by `has_one` the coin mint and the reserve
vault). What the caller chooses is a `TradeInput`: the signer, the two token
accounts, the oracle accounts and, since no handler controls it, the clock.
Handlers return the desk they leave and the events they emit.
-/

namespace IceMarkets.PegDesk

/-! ### Accounts and events -/

/-- The accounts of one commodity. -/
structure Desk where
  config : GlobalConfig
  commodityKey : Pubkey
  commodity : Commodity
  coinMint : Mint
  reserveVault : TokenAccount
  deriving DecidableEq, Repr

/-- What a trade's caller supplies, and the validator clock. -/
structure TradeInput where
  now : Int
  user : Pubkey
  userUsdc : TokenAccount
  userCoin : TokenAccount
  oracle : OracleAccounts
  deriving DecidableEq, Repr

/-- `SIDE_BUY` and `SIDE_SELL`. -/
inductive Side
  | buy
  | sell
  deriving DecidableEq, Repr

/-- The `Trade` event. -/
structure Trade where
  commodity : Pubkey
  user : Pubkey
  side : Side
  usdc : UInt64
  coin : UInt64
  price : UInt64
  spreadBps : UInt16
  deriving DecidableEq, Repr

/-- What an accepted trade leaves: the desk, the user's accounts, its `Trade`
event and the ratio of its `ReserveAlert`, if it emits one. -/
structure TradeOutcome where
  desk : Desk
  userUsdc : TokenAccount
  userCoin : TokenAccount
  trade : Trade
  alert : Option UInt64
  deriving DecidableEq, Repr

/-- Everything a trade needs from the oracle and guards, computed before any transfer. -/
structure Quote where
  price : UInt64
  publishTime : Int
  spreadBps : UInt16
  now : Int
  deriving DecidableEq, Repr

/-! ### Definitions -/

/-- The constraints of `TradeAccounts` on the user's token accounts. -/
def checkTradeAccounts (d : Desk) (x : TradeInput) : DeskResult Unit := do
  require (x.userUsdc.mint = d.config.reserveMint) .invalidParams
  require (x.userUsdc.owner = x.user) .unauthorized
  require (x.userCoin.mint = d.commodity.coinMint) .invalidParams
  require (x.userCoin.owner = x.user) .unauthorized

/-- The status guard of `quote`: Closed is sell-only. -/
def checkStatus (status : UInt8) (isBuy : Bool) : DeskResult Unit :=
  if status = statusOpen then .ok ()
  else if status = statusClosed then require (isBuy = false) .marketClosed
  else if status = statusHalted then .error (.custom .marketHalted)
  else .error (.custom .invalidStatus)

def quote (env : Env) (d : Desk) (x : TradeInput) (isBuy : Bool) : DeskResult Quote := do
  require (d.config.globalPause = false) .paused
  let c := d.commodity
  checkStatus c.status isBuy
  let op ← readPrice env c d.commodityKey x.oracle x.now
  -- no cherry-picking an older (but still fresh) update
  require (c.lastPublishTime ≤ op.publishTime) .oracleNotMonotonic
  let cbps ← okOr (confBps op.conf op.price) .mathOverflow
  require (cbps.toNat ≤ d.config.maxConfBps.toNat) .confidenceTooWide
  require (deviationOk op.price c.anchorPrice c.anchorTs x.now c.maxDeviationBps
    c.deviationWindowSecs = true) .priceDeviationTooLarge
  let preRatio := reserveRatioBps d.reserveVault.amount d.coinMint.supply op.price
  let spreadBps := effectiveSpreadBps c.baseSpreadBps c.closedSpreadBps c.confMultBps op.conf
    op.price (ageSecs x.now op.publishTime) c.maxAge c.status preRatio d.config.reserveWarnBps
  .ok { price := op.price, publishTime := op.publishTime, spreadBps, now := x.now }

/-- The bookkeeping both sides end with: cached balance, oracle marks, and the
anchor when the deviation window has elapsed. -/
def recordTrade (c : Commodity) (q : Quote) (vaultAmount : UInt64) : Commodity :=
  let c := { c with
    reserveBalanceCached := vaultAmount, lastPublishTime := q.publishTime, lastPrice := q.price }
  if shouldReanchor c.anchorPrice c.anchorTs q.now c.deviationWindowSecs then
    { c with anchorPrice := q.price, anchorTs := q.now }
  else c

def executeBuy (d : Desk) (x : TradeInput) (q : Quote) (usdcIn coinOut : UInt64) :
    DeskResult TradeOutcome := do
  let c := d.commodity
  require (0 < usdcIn ∧ 0 < coinOut) .zeroAmount
  require (coinOut ≤ c.perTxCap) .perTxCapExceeded
  let newSupply ← okOr (checkedAdd d.coinMint.supply coinOut) .mathOverflow
  require (newSupply ≤ c.supplyCap) .supplyCapExceeded
  let newReserve ← okOr (checkedAdd d.reserveVault.amount usdcIn) .mathOverflow
  let postRatio := reserveRatioBps newReserve newSupply q.price
  require (d.config.reserveHaltBps.toNat ≤ postRatio.toNat) .reserveRatioTooLow
  let (winStart, winMinted) ←
    okOr (windowAdd c.windowStart c.windowMinted q.now dailyWindowSecs c.dailyMintCap coinOut)
      .dailyMintCapExceeded
  -- a new window restarts the redemptions too
  let c := c.setWindow winStart winMinted
    (if winStart ≠ c.windowStart then 0 else c.windowRedeemed)
  let (userUsdc, reserveVault) ←
    liftToken (Token.transfer x.userUsdc d.reserveVault x.user usdcIn)
  let (coinMint, userCoin) ← liftToken (Token.mintTo d.coinMint x.userCoin coinOut)
  let c := c.setWindow c.windowStart c.windowMinted (windowRelease c.windowRedeemed usdcIn)
  .ok {
    desk := { d with commodity := recordTrade c q reserveVault.amount, coinMint, reserveVault }
    userUsdc, userCoin
    trade := { commodity := d.commodityKey, user := x.user, side := .buy, usdc := usdcIn,
               coin := coinOut, price := q.price, spreadBps := q.spreadBps }
    alert := if postRatio.toNat < d.config.reserveWarnBps.toNat then some postRatio else none }

/-- Spend exactly `usdcIn` USDC; receive at least `minCoinOut` coin. -/
def handleBuy (env : Env) (d : Desk) (x : TradeInput) (usdcIn minCoinOut : UInt64) :
    DeskResult TradeOutcome := do
  checkTradeAccounts d x
  require (0 < usdcIn) .zeroAmount
  let q ← quote env d x true
  let ask ← okOr (ask q.price q.spreadBps) .mathOverflow
  let coinOut ← okOr (coinOutForUsdc usdcIn ask) .mathOverflow
  require (minCoinOut ≤ coinOut) .slippageExceeded
  executeBuy d x q usdcIn coinOut

/-- Receive exactly `coinOut` coin; spend at most `maxUsdcIn` USDC. -/
def handleBuyExactOut (env : Env) (d : Desk) (x : TradeInput) (coinOut maxUsdcIn : UInt64) :
    DeskResult TradeOutcome := do
  checkTradeAccounts d x
  require (0 < coinOut) .zeroAmount
  let q ← quote env d x true
  let ask ← okOr (ask q.price q.spreadBps) .mathOverflow
  let usdcIn ← okOr (usdcInForCoin coinOut ask) .mathOverflow
  require (usdcIn ≤ maxUsdcIn) .slippageExceeded
  executeBuy d x q usdcIn coinOut

/-- The signer the daily redemption cap does not bind. -/
def redeemExempt (config : GlobalConfig) (user : Pubkey) : Bool :=
  config.redeemCapExempt ≠ Pubkey.default ∧ user = config.redeemCapExempt

/-- The part of `handle_sell` after its amounts are known. -/
def executeSell (d : Desk) (x : TradeInput) (q : Quote) (coinIn usdcOut : UInt64) :
    DeskResult TradeOutcome := do
  let c := d.commodity
  require (coinIn ≤ c.perTxCap) .perTxCapExceeded
  require (usdcOut ≤ d.reserveVault.amount) .reserveInsufficient
  -- an exempt sell rolls the window but does not consume it
  let exempt := redeemExempt d.config x.user
  let (winStart, winRedeemed) ←
    okOr (windowAdd c.windowStart c.windowRedeemed q.now dailyWindowSecs
      (if exempt then 0 else c.dailyRedeemCap) (if exempt then 0 else usdcOut))
      .dailyRedeemCapExceeded
  let c := c.setWindow winStart (if winStart ≠ c.windowStart then 0 else c.windowMinted)
    winRedeemed
  let (coinMint, userCoin) ← liftToken (Token.burn d.coinMint x.userCoin x.user coinIn)
  let (reserveVault, userUsdc) ←
    liftToken (Token.transfer d.reserveVault x.userUsdc d.commodityKey usdcOut)
  let postRatio := reserveRatioBps reserveVault.amount coinMint.supply q.price
  let c := c.setWindow c.windowStart (windowRelease c.windowMinted coinIn) c.windowRedeemed
  .ok {
    desk := { d with commodity := recordTrade c q reserveVault.amount, coinMint, reserveVault }
    userUsdc, userCoin
    trade := { commodity := d.commodityKey, user := x.user, side := .sell, usdc := usdcOut,
               coin := coinIn, price := q.price, spreadBps := q.spreadBps }
    alert := if postRatio.toNat < d.config.reserveWarnBps.toNat then some postRatio else none }

/-- Burn `coinIn` coin; receive at least `minUsdcOut` USDC from the reserve. -/
def handleSell (env : Env) (d : Desk) (x : TradeInput) (coinIn minUsdcOut : UInt64) :
    DeskResult TradeOutcome := do
  checkTradeAccounts d x
  require (0 < coinIn) .zeroAmount
  let q ← quote env d x false
  let bid ← okOr (bid q.price q.spreadBps) .mathOverflow
  let usdcOut ← okOr (usdcOutForCoin coinIn bid) .mathOverflow
  require (0 < usdcOut) .zeroAmount
  require (minUsdcOut ≤ usdcOut) .slippageExceeded
  executeSell d x q coinIn usdcOut

def oracleAgeOk (now publishTime : Int) (maxAge : UInt32) : Bool :=
  satSubI64 now publishTime ≤ (maxAge.toNat : Int)

/-- The `SpreadFeesSwept` event. -/
structure SpreadFeesSwept where
  commodity : Pubkey
  amount : UInt64
  deriving DecidableEq, Repr

/-- Move `amount` of accumulated spread from the reserve to the treasury. -/
def handleSweepSpreadFees (d : Desk) (now : Int) (authority : Pubkey) (treasuryUsdc : TokenAccount)
    (amount : UInt64) : DeskResult (Desk × SpreadFeesSwept) := do
  let c := d.commodity
  require (treasuryUsdc.mint = d.config.reserveMint) .invalidParams
  require (treasuryUsdc.owner = d.config.treasury) .unauthorized
  require (d.config.isAdminOrKeeper authority = true) .unauthorized
  require (d.config.globalPause = false) .paused
  require (0 < amount) .zeroAmount
  require (amount ≤ d.reserveVault.amount) .reserveInsufficient
  let supply := d.coinMint.supply
  let remaining := d.reserveVault.amount - amount
  require (0 < supply → 0 < c.lastPrice) .staleOracle
  require (0 < supply → oracleAgeOk now c.lastPublishTime c.maxAge = true) .staleOracle
  require (0 < supply →
    d.config.reserveWarnBps.toNat ≤ (reserveRatioBps remaining supply c.lastPrice).toNat)
    .reserveRatioTooLow
  let (reserveVault, _) ← liftToken
    (Token.transfer d.reserveVault treasuryUsdc d.commodityKey amount)
  .ok ({ d with
      commodity := { c with reserveBalanceCached := reserveVault.amount }, reserveVault },
    { commodity := d.commodityKey, amount })

/-- The `ReserveDeposited` event. -/
structure ReserveDeposited where
  commodity : Pubkey
  amount : UInt64
  deriving DecidableEq, Repr

/-- Anyone may top up a commodity's reserve. -/
def handleDepositReserve (d : Desk) (depositor : Pubkey) (src : TokenAccount) (amount : UInt64) :
    DeskResult (Desk × ReserveDeposited) := do
  require (src.mint = d.reserveVault.mint) .invalidParams
  require (src.owner = depositor) .unauthorized
  require (0 < amount) .zeroAmount
  let (_, reserveVault) ← liftToken (Token.transfer src d.reserveVault depositor amount)
  .ok ({ d with
      commodity := { d.commodity with reserveBalanceCached := reserveVault.amount }, reserveVault },
    { commodity := d.commodityKey, amount })

end IceMarkets.PegDesk
