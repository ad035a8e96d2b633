import IceMarkets.Lib.Run
import IceMarkets.PegDesk.TradeEffect

/-!
# IceMarkets.PegDesk.Run

Runs of a commodity's desk: the instructions that move its reserve, by any
signer and with any arguments, interleaved with changes of its parameters.

A step is labelled by what it did and when. `configured` stands for every admin or
keeper instruction that sets parameters (status, spreads, caps, oracle, config):
it may leave any terms, and never the running state a trade updates. Results that
need some parameter constant say so of the labels.
-/

namespace IceMarkets.PegDesk

open Lts

/-! ### One step -/

/-- What a step did. A trade says whether the redemption cap exempts its signer, a
sweep the ratio and the price it was valued at. -/
inductive Report
  | traded (exempt : Bool) (t : Trade)
  | deposited (amount : UInt64)
  | swept (warnBps : UInt16) (lastPrice amount : UInt64)
  | configured (config : GlobalConfig) (commodity : Commodity)
  deriving DecidableEq, Repr

/-- A step's report and the validator clock it ran at. -/
structure Event where
  now : Int
  report : Report
  deriving DecidableEq, Repr

/-- `c'` has the running state of `c`, on any terms. -/
structure Commodity.SameState (c c' : Commodity) : Prop where
  lastPublishTime : c'.lastPublishTime = c.lastPublishTime
  lastPrice : c'.lastPrice = c.lastPrice
  windowStart : c'.windowStart = c.windowStart
  windowMinted : c'.windowMinted = c.windowMinted
  windowRedeemed : c'.windowRedeemed = c.windowRedeemed
  anchorPrice : c'.anchorPrice = c.anchorPrice
  anchorTs : c'.anchorTs = c.anchorTs

/-- An accepted instruction. -/
inductive Step (env : Env) : Desk → Event → Desk → Prop
  | buy {d : Desk} {x : TradeInput} {usdcIn minCoinOut : UInt64} {out : TradeOutcome}
      (h : handleBuy env d x usdcIn minCoinOut = .ok out) :
      Step env d ⟨x.now, .traded (redeemExempt d.config x.user) out.trade⟩ out.desk
  | buyExactOut {d : Desk} {x : TradeInput} {coinOut maxUsdcIn : UInt64} {out : TradeOutcome}
      (h : handleBuyExactOut env d x coinOut maxUsdcIn = .ok out) :
      Step env d ⟨x.now, .traded (redeemExempt d.config x.user) out.trade⟩ out.desk
  | sell {d : Desk} {x : TradeInput} {coinIn minUsdcOut : UInt64} {out : TradeOutcome}
      (h : handleSell env d x coinIn minUsdcOut = .ok out) :
      Step env d ⟨x.now, .traded (redeemExempt d.config x.user) out.trade⟩ out.desk
  | depositReserve {now : Int} {d d' : Desk} {depositor : Pubkey} {src : TokenAccount}
      {amount : UInt64} {ev : ReserveDeposited}
      (h : handleDepositReserve d depositor src amount = .ok (d', ev)) :
      Step env d ⟨now, .deposited amount⟩ d'
  | sweepSpreadFees {now : Int} {d d' : Desk} {authority : Pubkey} {treasuryUsdc : TokenAccount}
      {amount : UInt64} {ev : SpreadFeesSwept}
      (h : handleSweepSpreadFees d now authority treasuryUsdc amount = .ok (d', ev)) :
      Step env d ⟨now, .swept d.config.reserveWarnBps d.commodity.lastPrice amount⟩ d'
  | configure {now : Int} {d : Desk} {config : GlobalConfig} {commodity : Commodity}
      (h : d.commodity.SameState commodity) :
      Step env d ⟨now, .configured config commodity⟩ { d with config, commodity }

/-- A run of a commodity's desk. -/
abbrev DeskRun (env : Env) : Desk → List Event → Desk → Prop := Run (Step env)

/-- A step beside the validator clock, which never goes back. -/
abbrev ClockedStep (env : Env) : Desk × Int → Event → Desk × Int → Prop :=
  Clocked (Step env) Event.now

/-- A run of a commodity's desk under a clock that never goes back. -/
abbrev ClockedRun (env : Env) : Desk × Int → List Event → Desk × Int → Prop :=
  Run (ClockedStep env)

/-! ### What a step does -/

/-- An accepted purchase through either handler. -/
structure Bought (env : Env) (d : Desk) (x : TradeInput) (q : Quote) (out : TradeOutcome) :
    Prop where
  quoted : Quoted env d x true q
  price_le : out.trade.coin.toNat * q.price.toNat ≤ out.trade.usdc.toNat * priceScale
  effect : BuyEffect d x q out.trade.usdc out.trade.coin out

/-- An accepted sale. -/
structure Sold (env : Env) (d : Desk) (x : TradeInput) (q : Quote) (out : TradeOutcome) :
    Prop where
  quoted : Quoted env d x false q
  paid : ∃ b, bid q.price q.spreadBps = some b ∧
    usdcOutForCoin out.trade.coin b = some out.trade.usdc
  effect : SellEffect d x q out.trade.coin out.trade.usdc out

/-- What `buy` mints is worth, at the oracle price, at most what it takes in. -/
theorem BuyAccepted.bought {env : Env} {d : Desk} {x : TradeInput} {usdcIn : UInt64} {q : Quote}
    {askPrice coinOut : UInt64} {out : TradeOutcome}
    (h : BuyAccepted env d x usdcIn q askPrice coinOut out) : Bought env d x q out := by
  have heff := executeBuy_ok h.execute
  have hle := (coinOutForUsdc_eq_some.mp h.coin).2.1
  have hcoin : out.trade.coin = coinOut := by rw [heff.trade]
  have husdc : out.trade.usdc = usdcIn := by rw [heff.trade]
  refine ⟨quote_ok h.quote, ?_, ?_⟩
  · rw [hcoin, husdc]
    exact (Nat.mul_le_mul_left _ (le_ask h.ask)).trans hle
  · rw [hcoin, husdc]
    exact heff

/-- So is what `buy_exact_out` mints. -/
theorem BuyExactOutAccepted.bought {env : Env} {d : Desk} {x : TradeInput} {coinOut : UInt64}
    {q : Quote} {askPrice usdcIn : UInt64} {out : TradeOutcome}
    (h : BuyExactOutAccepted env d x coinOut q askPrice usdcIn out) : Bought env d x q out := by
  have heff := executeBuy_ok h.execute
  have hle := (usdcInForCoin_eq_some.mp h.usdc).1
  have hcoin : out.trade.coin = coinOut := by rw [heff.trade]
  have husdc : out.trade.usdc = usdcIn := by rw [heff.trade]
  refine ⟨quote_ok h.quote, ?_, ?_⟩
  · rw [hcoin, husdc]
    exact (Nat.mul_le_mul_left _ (le_ask h.ask)).trans hle
  · rw [hcoin, husdc]
    exact heff

theorem SellAccepted.sold {env : Env} {d : Desk} {x : TradeInput} {coinIn : UInt64} {q : Quote}
    {bidPrice usdcOut : UInt64} {out : TradeOutcome}
    (h : SellAccepted env d x coinIn q bidPrice usdcOut out) : Sold env d x q out := by
  have heff := executeSell_ok h.execute
  have hcoin : out.trade.coin = coinIn := by rw [heff.trade]
  have husdc : out.trade.usdc = usdcOut := by rw [heff.trade]
  refine ⟨quote_ok h.quote, ⟨bidPrice, h.bid, ?_⟩, ?_⟩
  · rw [hcoin, husdc]
    exact h.usdc
  · rw [hcoin, husdc]
    exact heff

section Inversion

variable {env : Env} {d d' : Desk} {now : Int}

/-- Invert a trade: some user bought or sold, and the report is that trade's event. -/
theorem Step.traded_inv {exempt : Bool} {t : Trade}
    (h : Step env d ⟨now, .traded exempt t⟩ d') :
    ∃ x q out, now = x.now ∧ exempt = redeemExempt d.config x.user ∧ t = out.trade ∧
      d' = out.desk ∧ (Bought env d x q out ∨ Sold env d x q out) := by
  cases h with
  | buy h =>
      obtain ⟨q, a, coinOut, h, -⟩ := handleBuy_ok h
      exact ⟨_, q, _, rfl, rfl, rfl, rfl, Or.inl h.bought⟩
  | buyExactOut h =>
      obtain ⟨q, a, usdcIn, h, -⟩ := handleBuyExactOut_ok h
      exact ⟨_, q, _, rfl, rfl, rfl, rfl, Or.inl h.bought⟩
  | sell h =>
      obtain ⟨q, b, usdcOut, h, -⟩ := handleSell_ok h
      exact ⟨_, q, _, rfl, rfl, rfl, rfl, Or.inr h.sold⟩

theorem Step.deposited_inv {amount : UInt64} (h : Step env d ⟨now, .deposited amount⟩ d') :
    DepositEffect d amount d' := by
  cases h with
  | depositReserve h => exact handleDepositReserve_ok h

theorem Step.swept_inv {warn : UInt16} {lastPrice amount : UInt64}
    (h : Step env d ⟨now, .swept warn lastPrice amount⟩ d') :
    warn = d.config.reserveWarnBps ∧ lastPrice = d.commodity.lastPrice ∧
      SweepEffect d amount d' := by
  cases h with
  | sweepSpreadFees h => exact ⟨rfl, rfl, handleSweepSpreadFees_ok h⟩

theorem Step.configured_inv {config : GlobalConfig} {commodity : Commodity}
    (h : Step env d ⟨now, .configured config commodity⟩ d') :
    d.commodity.SameState commodity ∧ d' = { d with config, commodity } := by
  cases h with
  | configure h => exact ⟨h, rfl⟩

end Inversion

section Trades

variable {env : Env} {d : Desk} {x : TradeInput} {q : Quote} {out : TradeOutcome}

theorem Bought.trade_price (h : Bought env d x q out) : out.trade.price = q.price := by
  rw [h.effect.trade]

theorem Bought.trade_spreadBps (h : Bought env d x q out) :
    out.trade.spreadBps = q.spreadBps := by
  rw [h.effect.trade]

theorem Bought.trade_side (h : Bought env d x q out) : out.trade.side = .buy := by
  rw [h.effect.trade]

/-- What `sell` pays out is at most what it burns is worth at the oracle price. -/
theorem Sold.le_price (h : Sold env d x q out) :
    out.trade.usdc.toNat * priceScale ≤ out.trade.coin.toNat * q.price.toNat := by
  obtain ⟨b, hb, husdc⟩ := h.paid
  exact (usdcOutForCoin_eq_some.mp husdc).1.trans (Nat.mul_le_mul_left _ (bid_le hb))

theorem Sold.trade_price (h : Sold env d x q out) : out.trade.price = q.price := by
  rw [h.effect.trade]

theorem Sold.trade_spreadBps (h : Sold env d x q out) : out.trade.spreadBps = q.spreadBps := by
  rw [h.effect.trade]

theorem Sold.trade_side (h : Sold env d x q out) : out.trade.side = .sell := by
  rw [h.effect.trade]

end Trades

/-! ### A sample desk

A keeper-priced commodity with loose limits, to run handlers on. -/

namespace Sample

def env : Env where
  programId := Bytes32.fill 1
  pythReceiverId := Bytes32.fill 2
  pyth := { getPriceNoOlderThan := fun _ _ _ _ => none
            getPriceNoOlderThanWithCustomVerificationLevel := fun _ _ _ _ _ => none }

def config : GlobalConfig where
  admin := Bytes32.fill 3
  pendingAdmin := Pubkey.default
  keepers := Vector.replicate maxKeepers Pubkey.default
  keeperCount := 0
  treasury := Bytes32.fill 4
  reserveMint := Bytes32.fill 5
  globalPause := false
  maxConfBps := 200
  reserveWarnBps := 10200
  reserveHaltBps := 10000
  redeemCapExempt := Bytes32.fill 6

def commodity : Commodity where
  coinMint := Bytes32.fill 7
  oracleKind := OracleKind.keeperSigned.toU8
  sessionKind := 0
  status := statusOpen
  feedId := Bytes32.fill 0
  feedAccount := Pubkey.default
  fxFeedId := Bytes32.fill 0
  fxFeedAccount := Pubkey.default
  quoteScale := quoteUsd
  baseSpreadBps := 50
  closedSpreadBps := 150
  confMultBps := 0
  maxAgeOpen := 60
  maxAgeClosed := 3600
  supplyCap := 1000000000000000
  perTxCap := 1000000000000
  lastPublishTime := 0
  lastPrice := 0
  reserveVault := Bytes32.fill 8
  reserveBalanceCached := 0
  legs := Vector.replicate maxLegs { commodity := Pubkey.default, weightBps := 0 }
  legCount := 0
  pythMinSignatures := 0
  dailyMintCap := 0
  dailyRedeemCap := 0
  windowStart := 0
  windowMinted := 0
  windowRedeemed := 0
  maxDeviationBps := 0
  deviationWindowSecs := 0
  anchorPrice := 0
  anchorTs := 0

/-- A desk with the given commodity, backed by `reserve` for `supply` coins. -/
def desk (c : Commodity) (reserve supply : UInt64) : Desk where
  config := config
  commodityKey := Bytes32.fill 9
  commodity := c
  coinMint := { supply }
  reserveVault := { mint := Bytes32.fill 5, owner := Bytes32.fill 9, amount := reserve }

/-- A user who trades at `now` on a keeper price posted at the same second. -/
def input (now : Int) (price : UInt64) : TradeInput where
  now := now
  user := Bytes32.fill 10
  userUsdc := { mint := Bytes32.fill 5, owner := Bytes32.fill 10, amount := 1000000000000 }
  userCoin := { mint := Bytes32.fill 7, owner := Bytes32.fill 10, amount := 1000000000000 }
  oracle := {
    priceFeed := none
    fxFeed := none
    keeperPrice := some {
      key := Bytes32.fill 11
      owner := Bytes32.fill 1
      data := .keeperPrice {
        commodity := Bytes32.fill 9, price := price, conf := 0, publishTime := now
        sourceHash := Bytes32.fill 0, maxMoveBps := defaultMaxMoveBps
        minInterval := defaultMinInterval, lastUpdateTs := now } }
    remaining := [] }

end Sample

end IceMarkets.PegDesk
