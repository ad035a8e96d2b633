import IceMarkets.PegDesk.Run
import IceMarkets.Sdk.Pricing
import IceMarkets.Lib.JsNumber

/-!
# IceMarkets.Sdk.Quotes

The client-side quotes of `pegDesk.ts`, against the trades they announce.

A quote reads the accounts and an oracle reading and prices the trade with the port of
`pricing.rs`. The one thing it computes its own way is the reading's age, on numbers and
not on bigints, so it is exact for timestamps that are safe integers (`SafeTimes`).
-/

namespace IceMarkets.Sdk

open JsNumber Pricing
open PegDesk (Env Desk TradeInput TradeOutcome OraclePrice)

/-! ### Definitions -/

/-- `CommodityAccountView`, as far as a quote reads it. -/
structure CommodityAccountView where
  decimals : Int
  status : Int
  reserveBalanceCached : Int
  baseSpreadBps : Int
  closedSpreadBps : Int
  confMultBps : Int
  maxAgeOpenSec : Int
  maxAgeClosedSec : Int
  reserveWarnBps : Int
  reserveHaltBps : Int
  supply : Int
  deriving DecidableEq, Repr

structure OracleReading where
  price : Int
  conf : Int
  publishTime : Int
  deriving DecidableEq, Repr

/-- `fetchCommodityView`: the commodity, the config and the coin's supply. The commodity's
`decimals` are `COIN_DECIMALS` from its creation on. -/
def fetchCommodityView (d : Desk) : CommodityAccountView where
  decimals := PegDesk.coinDecimals
  status := d.commodity.status.toNat
  reserveBalanceCached := d.commodity.reserveBalanceCached.toNat
  baseSpreadBps := d.commodity.baseSpreadBps.toNat
  closedSpreadBps := d.commodity.closedSpreadBps.toNat
  confMultBps := d.commodity.confMultBps.toNat
  maxAgeOpenSec := d.commodity.maxAgeOpen.toNat
  maxAgeClosedSec := d.commodity.maxAgeClosed.toNat
  reserveWarnBps := d.config.reserveWarnBps.toNat
  reserveHaltBps := d.config.reserveHaltBps.toNat
  supply := d.coinMint.supply.toNat

/-- The program's reading, as the SDK holds it. -/
def OracleReading.ofPrice (op : OraclePrice) : OracleReading where
  price := op.price.toNat
  conf := op.conf.toNat
  publishTime := op.publishTime

namespace PegDeskClient

/-- `BigInt(Math.max(0, nowSec - Number(publishTime)))`. -/
def ageSec (nowSec publishTime : Int) : Int := max 0 (toNumber (nowSec - toNumber publishTime))

def spreadInputs (commodity : CommodityAccountView) (oracle : OracleReading) (nowSec : Int) :
    Priced SpreadInputs := do
  let maxAge := if commodity.status = statusOpen then commodity.maxAgeOpenSec
    else commodity.maxAgeClosedSec
  let ratio ← reserveRatioBps commodity.reserveBalanceCached commodity.supply oracle.price
    commodity.decimals 6
  .ok {
    status := commodity.status
    conf := oracle.conf
    price := oracle.price
    ageSec := ageSec nowSec oracle.publishTime
    maxAgeSec := maxAge
    params := {
      baseSpreadBps := commodity.baseSpreadBps
      closedSpreadBps := commodity.closedSpreadBps
      confMultBps := commodity.confMultBps
      coinDecimals := commodity.decimals
      usdcDecimals := 6
      reserveWarnBps := commodity.reserveWarnBps
      reserveHaltBps := commodity.reserveHaltBps }
    reserveRatioBps := some ratio
    reserveWarn := false }

def quote (commodity : CommodityAccountView) (oracle : OracleReading) (usdcIn nowSec : Int) :
    Priced QuoteBuyResult := do
  quoteBuy usdcIn (← spreadInputs commodity oracle nowSec)

def quoteSell (commodity : CommodityAccountView) (oracle : OracleReading)
    (coinIn nowSec : Int) : Priced QuoteSellResult := do
  Pricing.quoteSell coinIn (← spreadInputs commodity oracle nowSec)

def quoteBuyExactOut (commodity : CommodityAccountView) (oracle : OracleReading)
    (coinOut nowSec : Int) : Priced QuoteBuyExactOutResult := do
  Pricing.quoteBuyExactOut coinOut (← spreadInputs commodity oracle nowSec)

end PegDeskClient

/-! ### Ages -/

/-- The clock and the reading's publish time are where numbers are exact. A publish time
beyond is in the future, and of age 0 either way. -/
def SafeTimes (now publishTime : Int) : Prop := |now| ≤ safe ∧ -safe ≤ publishTime

/-- The client's age is the program's, up to the greatest max age. -/
theorem ageSec_eq {now publishTime : Int} (h : SafeTimes now publishTime)
    (hage : (PegDesk.ageSecs now publishTime).toNat < 2 ^ 32) :
    PegDeskClient.ageSec (toNumber now) publishTime = (PegDesk.ageSecs now publishTime).toNat := by
  obtain ⟨hnow, hpt⟩ := h
  have hnow' := abs_le.mp hnow
  rw [PegDesk.ageSecs_toNat] at hage ⊢
  unfold PegDeskClient.ageSec
  rw [toNumber_of_abs_le hnow]
  unfold satSubI64 clampI64 i64Max i64Min at *
  unfold safe at hpt hnow'
  by_cases hle : publishTime ≤ safe
  · have hsafe : |publishTime| ≤ safe := abs_le.mpr ⟨hpt, hle⟩
    unfold safe at hle
    rw [toNumber_of_abs_le hsafe]
    by_cases hfuture : now - publishTime ≤ 0
    · have hneg := toNumber_nonpos hfuture
      omega
    · have hdiff : |now - publishTime| ≤ safe := by
        rw [abs_of_pos (by omega)]
        unfold safe
        omega
      rw [toNumber_of_abs_le hdiff]
      omega
  · have hbig := safe_le_toNumber (x := publishTime) (by omega)
    unfold safe at hle hbig
    have hneg := toNumber_nonpos (x := now - toNumber publishTime) (by omega)
    omega

/-! ### Quotes of accepted trades -/

section Quotes

variable {env : Env} {d : Desk} {x : TradeInput} {out : TradeOutcome} {op : OraclePrice}

/-- What a client knows of a trade: the accounts before it, with the cached balance the
vault's, and the reading the program takes. -/
structure Informed (env : Env) (d : Desk) (x : TradeInput) (op : OraclePrice) : Prop where
  cached : d.reserveVault.amount = d.commodity.reserveBalanceCached
  reading : PegDesk.readPrice env d.commodity d.commodityKey x.oracle x.now = .ok op
  times : SafeTimes x.now op.publishTime

/-- The client's spread is that of the program's quote. -/
theorem Informed.spread (h : Informed env d x op) {isBuy : Bool} {q : PegDesk.Quote}
    (hq : PegDesk.quote env d x isBuy = .ok q) :
    ∃ inputs, PegDeskClient.spreadInputs (fetchCommodityView d) (.ofPrice op) (toNumber x.now) =
        .ok inputs ∧
      inputs.price = q.price.toNat ∧ inputs.params.coinDecimals = coinDecimals ∧
      inputs.params.usdcDecimals = usdcDecimals ∧
        spreadBps inputs = .ok (q.spreadBps.toNat : Int) := by
  obtain ⟨hprice, hspread⟩ := PegDesk.quote_spreadBps hq h.reading
  obtain ⟨-, hage⟩ := PegDesk.readPrice_ok h.reading
  obtain ⟨ratio, hratio, hagrees, -⟩ :=
    reserveRatioBps_agrees d.commodity.reserveBalanceCached d.coinMint.supply op.price
  have hmax : (if d.commodity.status.toNat = (0 : Int) then (d.commodity.maxAgeOpen.toNat : Int)
      else d.commodity.maxAgeClosed.toNat) = d.commodity.maxAge.toNat := by
    have hopen : (d.commodity.status.toNat : Int) = 0 ↔
        d.commodity.status = PegDesk.statusOpen := by
      have hzero : PegDesk.statusOpen.toNat = 0 := rfl
      rw [← UInt8.toNat_inj, hzero]
      omega
    unfold PegDesk.Commodity.maxAge
    by_cases hstatus : d.commodity.status = PegDesk.statusOpen
    · rw [if_pos (hopen.mpr hstatus), if_pos hstatus]
    · rw [if_neg (mt hopen.mp hstatus), if_neg hstatus]
  have hlt := d.commodity.maxAge.toNat_lt
  have hageSec := ageSec_eq h.times (by omega)
  have hspread' := effectiveSpreadBps_agrees d.commodity.baseSpreadBps d.commodity.closedSpreadBps
    d.commodity.confMultBps op.conf op.price (PegDesk.ageSecs x.now op.publishTime)
    d.commodity.maxAge d.commodity.status d.config.reserveWarnBps hagrees
  have hratio' : reserveRatioBps d.commodity.reserveBalanceCached.toNat d.coinMint.supply.toNat
      op.price.toNat (PegDesk.coinDecimals : Int) 6 = .ok ratio := hratio
  rw [hspread, h.cached, hprice]
  unfold PegDeskClient.spreadInputs fetchCommodityView OracleReading.ofPrice
  dsimp only
  rw [hratio']
  refine ⟨_, rfl, rfl, rfl, rfl, ?_⟩
  unfold spreadBps statusOpen
  dsimp only
  rw [hmax, hageSec]
  exact hspread'

/-- A value that agrees with one the program found. -/
theorem Pricing.Agrees.eq_ok {ts : Priced Int} {v : UInt64} (h : Agrees ts (some v)) :
    ts = .ok (v.toNat : Int) := by
  unfold Agrees at h
  cases ts with
  | error e => simp [Except.toOption] at h
  | ok r =>
      have hr : r = v.toNat := by simpa [Except.toOption] using h
      rw [hr]

/-- The client's quote for an accepted `buy` is what the program mints. -/
theorem Informed.buy (h : Informed env d x op) {usdcIn minCoinOut : UInt64}
    (hbuy : PegDesk.handleBuy env d x usdcIn minCoinOut = .ok out) :
    ∃ r, PegDeskClient.quote (fetchCommodityView d) (.ofPrice op) usdcIn.toNat (toNumber x.now) =
        .ok r ∧
      r.spreadBps = out.trade.spreadBps.toNat ∧
      (out.desk.reserveVault.amount.toNat : Int) = d.reserveVault.amount.toNat + usdcIn.toNat ∧
      (out.desk.coinMint.supply.toNat : Int) = d.coinMint.supply.toNat + r.coinOut := by
  obtain ⟨q, a, coinOut, hacc, -⟩ := PegDesk.handleBuy_ok hbuy
  obtain ⟨inputs, hinputs, hprice, hcoin, husdc, hspread⟩ := h.spread hacc.quote
  have hask := (hacc.ask ▸ askPrice_agrees q.price q.spreadBps).eq_ok
  have hout := (hacc.coin ▸ coinOutForUsdcIn_agrees usdcIn a).eq_ok
  have heff := PegDesk.executeBuy_ok hacc.execute
  have hsupply := heff.supply
  have hreserve := heff.reserve
  unfold PegDeskClient.quote
  rw [hinputs, ok_bind]
  unfold quoteBuy
  rw [hspread, ok_bind, hprice, hask, ok_bind, hcoin, husdc, hout, ok_bind]
  refine ⟨_, rfl, ?_, ?_, ?_⟩
  · rw [heff.trade]
  · omega
  · dsimp only
    omega

/-- The client's quote for an accepted `buy_exact_out` is what the program charges. -/
theorem Informed.buyExactOut (h : Informed env d x op) {coinOut maxUsdcIn : UInt64}
    (hbuy : PegDesk.handleBuyExactOut env d x coinOut maxUsdcIn = .ok out) :
    ∃ r, PegDeskClient.quoteBuyExactOut (fetchCommodityView d) (.ofPrice op) coinOut.toNat
        (toNumber x.now) = .ok r ∧
      r.spreadBps = out.trade.spreadBps.toNat ∧
      (out.desk.reserveVault.amount.toNat : Int) = d.reserveVault.amount.toNat + r.maxUsdcIn ∧
      (out.desk.coinMint.supply.toNat : Int) = d.coinMint.supply.toNat + coinOut.toNat := by
  obtain ⟨q, a, usdcIn, hacc, -⟩ := PegDesk.handleBuyExactOut_ok hbuy
  obtain ⟨inputs, hinputs, hprice, hcoin, husdc, hspread⟩ := h.spread hacc.quote
  have hask := (hacc.ask ▸ askPrice_agrees q.price q.spreadBps).eq_ok
  have hin := (hacc.usdc ▸ maxUsdcInForCoinOut_agrees coinOut a).eq_ok
  have heff := PegDesk.executeBuy_ok hacc.execute
  have hsupply := heff.supply
  have hreserve := heff.reserve
  unfold PegDeskClient.quoteBuyExactOut
  rw [hinputs, ok_bind]
  unfold quoteBuyExactOut
  rw [hspread, ok_bind, hprice, hask, ok_bind, hcoin, husdc, hin, ok_bind]
  refine ⟨_, rfl, ?_, ?_, ?_⟩
  · rw [heff.trade]
  · dsimp only
    omega
  · omega

/-- The client's quote for an accepted `sell` is what the program pays. -/
theorem Informed.sell (h : Informed env d x op) {coinIn minUsdcOut : UInt64}
    (hsell : PegDesk.handleSell env d x coinIn minUsdcOut = .ok out) :
    ∃ r, PegDeskClient.quoteSell (fetchCommodityView d) (.ofPrice op) coinIn.toNat
        (toNumber x.now) = .ok r ∧
      r.spreadBps = out.trade.spreadBps.toNat ∧
      (out.desk.reserveVault.amount.toNat : Int) + r.usdcOut = d.reserveVault.amount.toNat ∧
      (out.desk.coinMint.supply.toNat : Int) + coinIn.toNat = d.coinMint.supply.toNat := by
  obtain ⟨q, b, usdcOut, hacc, -⟩ := PegDesk.handleSell_ok hsell
  obtain ⟨inputs, hinputs, hprice, hcoin, husdc, hspread⟩ := h.spread hacc.quote
  have hbid := (hacc.bid ▸ bidPrice_agrees q.price q.spreadBps).eq_ok
  have hout := (hacc.usdc ▸ usdcOutForCoinIn_agrees coinIn b).eq_ok
  have heff := PegDesk.executeSell_ok hacc.execute
  have hsupply := heff.supply
  have hreserve := heff.reserve
  unfold PegDeskClient.quoteSell
  rw [hinputs, ok_bind]
  unfold quoteSell
  rw [hspread, ok_bind, hprice, hbid, ok_bind, hcoin, husdc, hout, ok_bind]
  refine ⟨_, rfl, ?_, ?_, ?_⟩
  · rw [heff.trade]
  · dsimp only
    omega
  · omega

end Quotes

/-! ### The port agrees -/

/-- Each ported function returns what the program's does, and throws where that returns
`None`; and a client informed of the accounts and the reading quotes every trade the program
accepts to the unit, while timestamps are safe integers. -/
theorem pricing_agrees :
    (∀ (base closed confMult : UInt16) (conf price age : UInt64) (maxAge : UInt32) (status : UInt8)
      (ratio : Option Int) (reserveRatio : UInt64) (warn : UInt16), RatioAgrees ratio reserveRatio →
      effectiveSpreadBps {
          base := base.toNat, closed := closed.toNat, confMult := confMult.toNat
          conf := conf.toNat, price := price.toNat, age := age.toNat, maxAge := maxAge.toNat
          status := status.toNat, reserveRatioBps := ratio, warnBps := warn.toNat } =
        .ok ((PegDesk.effectiveSpreadBps base closed confMult conf price age maxAge status
          reserveRatio warn).toNat : Int)) ∧
    (∀ (price : UInt64) (spread : UInt16),
      Agrees (askPrice price.toNat spread.toNat) (PegDesk.ask price spread) ∧
      Agrees (bidPrice price.toNat spread.toNat) (PegDesk.bid price spread)) ∧
    (∀ amount price : UInt64,
      Agrees (coinOutForUsdcIn amount.toNat price.toNat coinDecimals usdcDecimals)
        (PegDesk.coinOutForUsdc amount price) ∧
      Agrees (maxUsdcInForCoinOut amount.toNat price.toNat coinDecimals usdcDecimals)
        (PegDesk.usdcInForCoin amount price) ∧
      Agrees (usdcOutForCoinIn amount.toNat price.toNat coinDecimals usdcDecimals)
        (PegDesk.usdcOutForCoin amount price) ∧
      Agrees (confBps amount.toNat price.toNat) (PegDesk.confBps amount price)) ∧
    (∀ reserve supply price : UInt64, ∃ r,
      reserveRatioBps reserve.toNat supply.toNat price.toNat coinDecimals usdcDecimals = .ok r ∧
        RatioAgrees r (PegDesk.reserveRatioBps reserve supply price) ∧
        (r = none ↔ supply = 0 ∨ price = 0)) ∧
    (∀ (value : UInt64) (expo : Int),
      Agrees (normalizeTo1e8 value.toNat expo) (PegDesk.normalizeTo1e8 value expo)) ∧
    (∀ (price : UInt64) (expo : Int) (scale : UInt8) (fxPrice : UInt64) (fxExpo : Int),
      Agrees (scaleQuote price.toNat expo scale.toNat fxPrice.toNat fxExpo)
        (PegDesk.scaleQuote price expo scale fxPrice fxExpo)) ∧
    (∀ legs : List (UInt64 × UInt16),
      Agrees (weightedSum (legs.map fun l => ((l.1.toNat : Int), (l.2.toNat : Int))))
        (PegDesk.weightedSum legs)) ∧
    (∀ (env : Env) (d : Desk) (x : TradeInput) (op : OraclePrice) (out : TradeOutcome)
      (amount limit : UInt64), Informed env d x op →
      (PegDesk.handleBuy env d x amount limit = .ok out →
        ∃ r, PegDeskClient.quote (fetchCommodityView d) (.ofPrice op) amount.toNat
            (toNumber x.now) = .ok r ∧
          r.spreadBps = out.trade.spreadBps.toNat ∧
          (out.desk.reserveVault.amount.toNat : Int) = d.reserveVault.amount.toNat + amount.toNat ∧
          (out.desk.coinMint.supply.toNat : Int) = d.coinMint.supply.toNat + r.coinOut) ∧
      (PegDesk.handleBuyExactOut env d x amount limit = .ok out →
        ∃ r, PegDeskClient.quoteBuyExactOut (fetchCommodityView d) (.ofPrice op) amount.toNat
            (toNumber x.now) = .ok r ∧
          r.spreadBps = out.trade.spreadBps.toNat ∧
          (out.desk.reserveVault.amount.toNat : Int) = d.reserveVault.amount.toNat + r.maxUsdcIn ∧
          (out.desk.coinMint.supply.toNat : Int) = d.coinMint.supply.toNat + amount.toNat) ∧
      (PegDesk.handleSell env d x amount limit = .ok out →
        ∃ r, PegDeskClient.quoteSell (fetchCommodityView d) (.ofPrice op) amount.toNat
            (toNumber x.now) = .ok r ∧
          r.spreadBps = out.trade.spreadBps.toNat ∧
          (out.desk.reserveVault.amount.toNat : Int) + r.usdcOut = d.reserveVault.amount.toNat ∧
          (out.desk.coinMint.supply.toNat : Int) + amount.toNat = d.coinMint.supply.toNat)) :=
  ⟨fun base closed confMult conf price age maxAge status _ _ warn h =>
      effectiveSpreadBps_agrees base closed confMult conf price age maxAge status warn h,
    fun price spread => ⟨askPrice_agrees price spread, bidPrice_agrees price spread⟩,
    fun amount price => ⟨coinOutForUsdcIn_agrees amount price,
      maxUsdcInForCoinOut_agrees amount price,
      usdcOutForCoinIn_agrees amount price, confBps_agrees amount price⟩,
    reserveRatioBps_agrees, normalizeTo1e8_agrees, scaleQuote_agrees, weightedSum_agrees,
    fun _ _ _ _ _ _ _ h => ⟨h.buy, h.buyExactOut, h.sell⟩⟩

namespace Sample

/-- A desk whose readings may be three seconds old. -/
def quotedDesk : Desk :=
  PegDesk.Sample.desk
    { PegDesk.Sample.commodity with maxAgeOpen := 3, reserveBalanceCached := 1100000000 }
    1100000000 10000000

/-- A trade at `now` on a price of 100 published at `publishTime`. -/
def quotedInput (now publishTime : Int) : TradeInput :=
  { PegDesk.Sample.input now 10000000000 with
    oracle := (PegDesk.Sample.input publishTime 10000000000).oracle }

def quotedReading (publishTime : Int) : OraclePrice :=
  { price := 10000000000, conf := 0, publishTime }

/-- A buy on a reading two seconds old. -/
def quotedBuy : TradeOutcome :=
  acceptedValue (PegDesk.handleBuy PegDesk.Sample.env quotedDesk (quotedInput 1000 998) 100000000 0)
    (by decide +kernel)

/-- The same on a reading one second old, in the first second that is no number. -/
def lateBuy : TradeOutcome :=
  acceptedValue (PegDesk.handleBuy PegDesk.Sample.env quotedDesk
    (quotedInput (2 ^ 53 + 2) (2 ^ 53 + 1)) 100000000 0) (by decide +kernel)

end Sample

/-- The quote of a buy in the age penalty. -/
theorem pricing_agrees_sample :
    ∃ r, PegDeskClient.quote (fetchCommodityView Sample.quotedDesk)
        (.ofPrice (Sample.quotedReading 998)) (100000000 : UInt64).toNat (toNumber 1000) = .ok r ∧
      r.spreadBps = Sample.quotedBuy.trade.spreadBps.toNat ∧
      (Sample.quotedBuy.desk.reserveVault.amount.toNat : Int) =
        Sample.quotedDesk.reserveVault.amount.toNat + (100000000 : UInt64).toNat ∧
      (Sample.quotedBuy.desk.coinMint.supply.toNat : Int) =
        Sample.quotedDesk.coinMint.supply.toNat + r.coinOut :=
  (pricing_agrees.2.2.2.2.2.2.2 PegDesk.Sample.env Sample.quotedDesk (Sample.quotedInput 1000 998)
    (Sample.quotedReading 998) Sample.quotedBuy 100000000 0
    { cached := rfl, reading := by decide +kernel, times := by unfold SafeTimes safe; decide }).1
    (eq_ok_acceptedValue (by decide +kernel))

/-- At a clock of `2^53 + 2` the client takes a reading of age 1 for one of age 2, and adds
an age penalty the program does not charge. -/
theorem quote_ne_buy :
    ¬ ∀ (env : Env) (d : Desk) (x : TradeInput) (op : OraclePrice) (out : TradeOutcome)
      (usdcIn minCoinOut : UInt64), d.reserveVault.amount = d.commodity.reserveBalanceCached →
      PegDesk.readPrice env d.commodity d.commodityKey x.oracle x.now = .ok op →
      PegDesk.handleBuy env d x usdcIn minCoinOut = .ok out →
      ∃ r, PegDeskClient.quote (fetchCommodityView d) (.ofPrice op) usdcIn.toNat (toNumber x.now) =
          .ok r ∧
        (out.desk.coinMint.supply.toNat : Int) = d.coinMint.supply.toNat + r.coinOut := by
  intro h
  obtain ⟨r, hr, hsupply⟩ := h PegDesk.Sample.env Sample.quotedDesk
    (Sample.quotedInput (2 ^ 53 + 2) (2 ^ 53 + 1)) (Sample.quotedReading (2 ^ 53 + 1))
    Sample.lateBuy 100000000 0 rfl (by decide +kernel) (eq_ok_acceptedValue (by decide +kernel))
  have hquote : PegDeskClient.quote (fetchCommodityView Sample.quotedDesk)
      (.ofPrice (Sample.quotedReading (2 ^ 53 + 1))) (100000000 : UInt64).toNat
      (toNumber (2 ^ 53 + 2)) =
        .ok { spreadBps := 75, ask := 10075000000, coinOut := 992555 } := by decide +kernel
  obtain rfl := Except.ok.inj (hr.symm.trans hquote)
  have hout : Sample.lateBuy.desk.coinMint.supply.toNat =
      Sample.quotedDesk.coinMint.supply.toNat + 995024 := by decide +kernel
  rw [hout] at hsupply
  dsimp only at hsupply
  omega

end IceMarkets.Sdk
