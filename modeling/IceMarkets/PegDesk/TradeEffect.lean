import IceMarkets.PegDesk.Trade

/-!
# IceMarkets.PegDesk.TradeEffect

What an accepted instruction of `trade.rs` can have done, stated once per
handler. Every later result about trades is derived from these facts and never
unfolds a handler.

An accepted trade first obtains a `Quote` (`Quoted`) and then moves its two
amounts. `BuyEffect` and `SellEffect` say which checks the amounts passed and
what became of each account; `TradeMarks` is the part both sides share: the
terms are untouched, the oracle marks follow the quote, and the anchor and the
daily window restart exactly when they have expired.
-/

namespace IceMarkets.PegDesk

/-! ### Quotes -/

/-- The effective spread never exceeds its ceiling. -/
theorem effectiveSpreadBps_le (base closed confMult : UInt16) (conf price age : UInt64)
    (maxAge : UInt32) (status : UInt8) (ratio : UInt64) (warn : UInt16) :
    (effectiveSpreadBps base closed confMult conf price age maxAge status ratio warn).toNat
      ≤ maxSpreadBps.toNat := by
  unfold effectiveSpreadBps
  split
  · exact le_refl _
  · dsimp only
    rw [UInt16.toNat_ofNat']
    exact (Nat.mod_le _ _).trans (Nat.min_le_right _ _)

/-- What an accepted quote guarantees. -/
structure Quoted (env : Env) (d : Desk) (x : TradeInput) (isBuy : Bool) (q : Quote) : Prop where
  not_paused : d.config.globalPause = false
  status : d.commodity.status = statusOpen ∨ (d.commodity.status = statusClosed ∧ isBuy = false)
  now : q.now = x.now
  reading : ∃ op, readPrice env d.commodity d.commodityKey x.oracle x.now = .ok op ∧
    op.price = q.price ∧ op.publishTime = q.publishTime ∧
    ∃ cbps, confBps op.conf op.price = some cbps ∧ cbps.toNat ≤ d.config.maxConfBps.toNat
  price_pos : 0 < q.price.toNat
  monotonic : d.commodity.lastPublishTime ≤ q.publishTime
  deviation : deviationOk q.price d.commodity.anchorPrice d.commodity.anchorTs x.now
    d.commodity.maxDeviationBps d.commodity.deviationWindowSecs = true
  spread_le : q.spreadBps.toNat ≤ maxSpreadBps.toNat

theorem checkStatus_ok {status : UInt8} {isBuy : Bool} {u : Unit}
    (h : checkStatus status isBuy = .ok u) :
    status = statusOpen ∨ (status = statusClosed ∧ isBuy = false) := by
  unfold checkStatus at h
  split_ifs at h with h1 h2
  · exact Or.inl h1
  · exact Or.inr ⟨h2, require_eq_ok.mp h⟩

theorem quote_ok {env : Env} {d : Desk} {x : TradeInput} {isBuy : Bool} {q : Quote}
    (h : quote env d x isBuy = .ok q) : Quoted env d x isBuy q := by
  unfold quote at h
  obtain ⟨hpause, h⟩ := require_bind_eq_ok.mp h
  obtain ⟨_, hstatus, h⟩ := bind_eq_ok.mp h
  obtain ⟨op, hop, h⟩ := bind_eq_ok.mp h
  obtain ⟨hmono, h⟩ := require_bind_eq_ok.mp h
  obtain ⟨cbps, hcbps, h⟩ := okOr_bind_eq_ok.mp h
  obtain ⟨hconf, h⟩ := require_bind_eq_ok.mp h
  obtain ⟨hdev, h⟩ := require_bind_eq_ok.mp h
  cases h
  exact {
    not_paused := hpause
    status := checkStatus_ok hstatus
    now := rfl
    reading := ⟨op, hop, rfl, rfl, cbps, hcbps, hconf⟩
    price_pos := (readPrice_ok hop).1
    monotonic := hmono
    deviation := hdev
    spread_le := effectiveSpreadBps_le .. }

/-- An accepted quote's price and spread, from the reading it was given. -/
theorem quote_spreadBps {env : Env} {d : Desk} {x : TradeInput} {isBuy : Bool} {q : Quote}
    {op : OraclePrice} (h : quote env d x isBuy = .ok q)
    (hop : readPrice env d.commodity d.commodityKey x.oracle x.now = .ok op) :
    q.price = op.price ∧
      q.spreadBps = effectiveSpreadBps d.commodity.baseSpreadBps d.commodity.closedSpreadBps
        d.commodity.confMultBps op.conf op.price (ageSecs x.now op.publishTime) d.commodity.maxAge
        d.commodity.status
        (reserveRatioBps d.reserveVault.amount d.coinMint.supply op.price)
        d.config.reserveWarnBps := by
  unfold quote at h
  obtain ⟨-, h⟩ := require_bind_eq_ok.mp h
  obtain ⟨_, -, h⟩ := bind_eq_ok.mp h
  obtain ⟨op', hop', h⟩ := bind_eq_ok.mp h
  obtain rfl := Except.ok.inj (hop'.symm.trans hop)
  obtain ⟨-, h⟩ := require_bind_eq_ok.mp h
  obtain ⟨_, -, h⟩ := okOr_bind_eq_ok.mp h
  obtain ⟨-, h⟩ := require_bind_eq_ok.mp h
  obtain ⟨-, h⟩ := require_bind_eq_ok.mp h
  cases h
  exact ⟨rfl, rfl⟩

/-- The codes a trade can fail with before its amounts are known. -/
def quoteErrors : List PegDeskError :=
  oracleErrors ++ [.paused, .marketClosed, .invalidStatus, .oracleNotMonotonic,
    .confidenceTooWide, .priceDeviationTooLarge]

theorem checkStatus_raises {status : UInt8} {isBuy : Bool} :
    RaisesOnly quoteErrors (checkStatus status isBuy) := by
  unfold checkStatus
  split_ifs
  · exact .ok _
  · exact .require (by decide)
  · exact .error (by decide)
  · exact .error (by decide)

theorem quote_raises {env : Env} {d : Desk} {x : TradeInput} {isBuy : Bool} :
    RaisesOnly quoteErrors (quote env d x isBuy) := by
  unfold quote
  exact .bind (.require (by decide)) fun _ => .bind checkStatus_raises fun _ =>
    .bind (readPrice_raises.mono fun _ h => List.mem_append_left _ h) fun _ =>
    .bind (.require (by decide)) fun _ => .bind (.okOr (by decide)) fun _ =>
    .bind (.require (by decide)) fun _ => .bind (.require (by decide)) fun _ => .ok _

theorem checkTradeAccounts_raises {d : Desk} {x : TradeInput} :
    RaisesOnly [.invalidParams, .unauthorized] (checkTradeAccounts d x) := by
  unfold checkTradeAccounts
  exact .bind (.require (by decide)) fun _ => .bind (.require (by decide)) fun _ =>
    .bind (.require (by decide)) fun _ => .require (by decide)

/-- `le_reserveRatioBps` for a configured ratio. -/
theorem le_reserveRatioBps16 {w : UInt16} {reserve supply price : UInt64} :
    w.toNat ≤ (reserveRatioBps reserve supply price).toNat ↔
      w.toNat * (supply.toNat * price.toNat) ≤ reserve.toNat * (bps * priceScale) := by
  have h := @le_reserveRatioBps reserve supply price w.toUInt64
  rwa [UInt16.toNat_toUInt64] at h

/-! ### Marks, anchor and window -/

/-- What both sides of an accepted trade do to the running state. -/
structure TradeMarks (d : Desk) (q : Quote) (d' : Desk) : Prop where
  config : d'.config = d.config
  key : d'.commodityKey = d.commodityKey
  terms : d.commodity.SameTerms d'.commodity
  lastPrice : d'.commodity.lastPrice = q.price
  lastPublishTime : d'.commodity.lastPublishTime = q.publishTime
  windowStart : d'.commodity.windowStart =
    if WindowRolls d.commodity.windowStart q.now then q.now else d.commodity.windowStart
  reanchored : shouldReanchor d.commodity.anchorPrice d.commodity.anchorTs q.now
      d.commodity.deviationWindowSecs = true →
    d'.commodity.anchorPrice = q.price ∧ d'.commodity.anchorTs = q.now
  anchored : shouldReanchor d.commodity.anchorPrice d.commodity.anchorTs q.now
      d.commodity.deviationWindowSecs = false →
    d'.commodity.anchorPrice = d.commodity.anchorPrice ∧
      d'.commodity.anchorTs = d.commodity.anchorTs

section RecordTrade

variable (c : Commodity) (q : Quote) (v : UInt64)

theorem sameTerms_recordTrade : c.SameTerms (recordTrade c q v) := by
  unfold recordTrade
  dsimp only
  split <;> rfl

@[simp] theorem recordTrade_lastPrice : (recordTrade c q v).lastPrice = q.price := by
  unfold recordTrade
  dsimp only
  split <;> rfl

@[simp] theorem recordTrade_lastPublishTime :
    (recordTrade c q v).lastPublishTime = q.publishTime := by
  unfold recordTrade
  dsimp only
  split <;> rfl

@[simp] theorem recordTrade_windowStart : (recordTrade c q v).windowStart = c.windowStart := by
  unfold recordTrade
  dsimp only
  split <;> rfl

@[simp] theorem recordTrade_windowMinted : (recordTrade c q v).windowMinted = c.windowMinted := by
  unfold recordTrade
  dsimp only
  split <;> rfl

@[simp] theorem recordTrade_windowRedeemed :
    (recordTrade c q v).windowRedeemed = c.windowRedeemed := by
  unfold recordTrade
  dsimp only
  split <;> rfl

variable {c q v}

theorem recordTrade_reanchored
    (h : shouldReanchor c.anchorPrice c.anchorTs q.now c.deviationWindowSecs = true) :
    (recordTrade c q v).anchorPrice = q.price ∧ (recordTrade c q v).anchorTs = q.now := by
  unfold recordTrade
  dsimp only
  rw [if_pos h]
  exact ⟨rfl, rfl⟩

theorem recordTrade_anchored
    (h : shouldReanchor c.anchorPrice c.anchorTs q.now c.deviationWindowSecs = false) :
    (recordTrade c q v).anchorPrice = c.anchorPrice ∧
      (recordTrade c q v).anchorTs = c.anchorTs := by
  unfold recordTrade
  dsimp only
  rw [if_neg (by rw [h]; exact Bool.false_ne_true)]
  exact ⟨rfl, rfl⟩

end RecordTrade

/-- Storing the window and then recording the trade leaves the trade's marks. -/
theorem tradeMarks_recordTrade (d : Desk) (q : Quote) {start : Int} (minted redeemed : UInt64)
    (coinMint : Mint) (vault : TokenAccount)
    (hstart : start =
      if WindowRolls d.commodity.windowStart q.now then q.now else d.commodity.windowStart) :
    TradeMarks d q { d with
      commodity := recordTrade (d.commodity.setWindow start minted redeemed) q vault.amount
      coinMint := coinMint, reserveVault := vault } where
  config := rfl
  key := rfl
  terms := (Commodity.SameTerms.setWindow ..).trans (sameTerms_recordTrade ..)
  lastPrice := recordTrade_lastPrice ..
  lastPublishTime := recordTrade_lastPublishTime ..
  windowStart := (recordTrade_windowStart ..).trans hstart
  reanchored := recordTrade_reanchored (c := d.commodity.setWindow start minted redeemed)
  anchored := recordTrade_anchored (c := d.commodity.setWindow start minted redeemed)

/-- A stored window start differs from the old one exactly when the window rolled. -/
theorem windowStart_ne_iff {ws now : Int} :
    (if WindowRolls ws now then now else ws) ≠ ws ↔ WindowRolls ws now := by
  split
  · next h =>
      unfold WindowRolls dailyWindowSecs at h
      exact ⟨fun _ => by unfold WindowRolls dailyWindowSecs; exact h, fun _ => by omega⟩
  · next h => exact ⟨fun h' => absurd rfl h', fun h' => absurd h' h⟩

/-- The counter the other side restarts when the window rolled. -/
theorem otherCounter_toNat {ws now : Int} {used : UInt64} :
    (if (if WindowRolls ws now then now else ws) ≠ ws then 0 else used).toNat =
      if WindowRolls ws now then 0 else used.toNat := by
  simp only [windowStart_ne_iff, apply_ite UInt64.toNat, UInt64.toNat_zero]

/-! ### Buys -/

/-- What an accepted `execute_buy` checked and did. -/
structure BuyEffect (d : Desk) (x : TradeInput) (q : Quote) (usdcIn coinOut : UInt64)
    (out : TradeOutcome) : Prop where
  usdc_pos : 0 < usdcIn.toNat
  coin_pos : 0 < coinOut.toNat
  per_tx : coinOut.toNat ≤ d.commodity.perTxCap.toNat
  supply : out.desk.coinMint.supply.toNat = d.coinMint.supply.toNat + coinOut.toNat
  supply_cap : out.desk.coinMint.supply.toNat ≤ d.commodity.supplyCap.toNat
  reserve : out.desk.reserveVault.amount.toNat = d.reserveVault.amount.toNat + usdcIn.toNat
  ratio : d.config.reserveHaltBps.toNat * (out.desk.coinMint.supply.toNat * q.price.toNat) ≤
    out.desk.reserveVault.amount.toNat * (bps * priceScale)
  minted : out.desk.commodity.windowMinted.toNat =
    (if WindowRolls d.commodity.windowStart q.now then 0 else d.commodity.windowMinted.toNat)
      + coinOut.toNat
  minted_le : d.commodity.dailyMintCap = 0 ∨
    out.desk.commodity.windowMinted.toNat ≤ d.commodity.dailyMintCap.toNat
  redeemed : out.desk.commodity.windowRedeemed.toNat =
    (if WindowRolls d.commodity.windowStart q.now then 0 else d.commodity.windowRedeemed.toNat)
      - usdcIn.toNat
  marks : TradeMarks d q out.desk
  trade : out.trade = { commodity := d.commodityKey, user := x.user, side := .buy, usdc := usdcIn,
                        coin := coinOut, price := q.price, spreadBps := q.spreadBps }

theorem executeBuy_ok {d : Desk} {x : TradeInput} {q : Quote} {usdcIn coinOut : UInt64}
    {out : TradeOutcome} (h : executeBuy d x q usdcIn coinOut = .ok out) :
    BuyEffect d x q usdcIn coinOut out := by
  unfold executeBuy at h
  obtain ⟨⟨hu, hc⟩, h⟩ := require_bind_eq_ok.mp h
  obtain ⟨hper, h⟩ := require_bind_eq_ok.mp h
  obtain ⟨newSupply, hsup, h⟩ := okOr_bind_eq_ok.mp h
  obtain ⟨hcap, h⟩ := require_bind_eq_ok.mp h
  obtain ⟨newReserve, hres, h⟩ := okOr_bind_eq_ok.mp h
  obtain ⟨hratio, h⟩ := require_bind_eq_ok.mp h
  obtain ⟨⟨start, minted⟩, hwin, h⟩ := okOr_bind_eq_ok.mp h
  obtain ⟨⟨userUsdc, vault⟩, htr, h⟩ := bind_eq_ok.mp h
  obtain ⟨⟨mint, userCoin⟩, hmint, h⟩ := bind_eq_ok.mp h
  cases h
  rw [checkedAdd_eq_some] at hsup hres
  obtain ⟨rfl, hminted, hmcap⟩ := windowAdd_eq_some.mp hwin
  obtain ⟨-, hvault, -, -⟩ := Token.transfer_eq_ok (liftToken_eq_ok.mp htr)
  have hsupply := Token.mintTo_eq_ok (liftToken_eq_ok.mp hmint)
  rw [le_reserveRatioBps16, hsup, hres, ← hvault, ← hsupply] at hratio
  rw [UInt64.le_iff_toNat_le] at hper hcap
  exact {
    usdc_pos := UInt64.lt_iff_toNat_lt.mp hu
    coin_pos := UInt64.lt_iff_toNat_lt.mp hc
    per_tx := hper
    supply := hsupply
    supply_cap := by rw [hsupply, ← hsup]; exact hcap
    reserve := hvault
    ratio := hratio
    minted := by rw [recordTrade_windowMinted]; exact hminted
    minted_le := by rw [recordTrade_windowMinted]; exact hmcap
    redeemed := by
      rw [recordTrade_windowRedeemed, Commodity.setWindow_windowRedeemed, windowRelease_toNat,
        Commodity.setWindow_windowRedeemed, otherCounter_toNat]
    marks := tradeMarks_recordTrade d q _ _ mint vault rfl
    trade := rfl }

/-- An accepted `buy` bought at the ask, rounded down to whole coin units. -/
structure BuyAccepted (env : Env) (d : Desk) (x : TradeInput) (usdcIn : UInt64) (q : Quote)
    (askPrice coinOut : UInt64) (out : TradeOutcome) : Prop where
  accounts : checkTradeAccounts d x = .ok ()
  quote : quote env d x true = .ok q
  ask : ask q.price q.spreadBps = some askPrice
  coin : coinOutForUsdc usdcIn askPrice = some coinOut
  execute : executeBuy d x q usdcIn coinOut = .ok out

theorem handleBuy_ok {env : Env} {d : Desk} {x : TradeInput} {usdcIn minCoinOut : UInt64}
    {out : TradeOutcome} (h : handleBuy env d x usdcIn minCoinOut = .ok out) :
    ∃ q askPrice coinOut, BuyAccepted env d x usdcIn q askPrice coinOut out ∧
      minCoinOut ≤ coinOut := by
  unfold handleBuy at h
  obtain ⟨u, hacc, h⟩ := bind_eq_ok.mp h
  obtain ⟨-, h⟩ := require_bind_eq_ok.mp h
  obtain ⟨q, hq, h⟩ := bind_eq_ok.mp h
  obtain ⟨a, ha, h⟩ := okOr_bind_eq_ok.mp h
  obtain ⟨coinOut, hcoin, h⟩ := okOr_bind_eq_ok.mp h
  obtain ⟨hslip, h⟩ := require_bind_eq_ok.mp h
  exact ⟨q, a, coinOut, ⟨hacc, hq, ha, hcoin, h⟩, hslip⟩

/-- An accepted `buy_exact_out` paid the ask, rounded up to whole USDC units. -/
structure BuyExactOutAccepted (env : Env) (d : Desk) (x : TradeInput) (coinOut : UInt64)
    (q : Quote) (askPrice usdcIn : UInt64) (out : TradeOutcome) : Prop where
  accounts : checkTradeAccounts d x = .ok ()
  quote : quote env d x true = .ok q
  ask : ask q.price q.spreadBps = some askPrice
  usdc : usdcInForCoin coinOut askPrice = some usdcIn
  execute : executeBuy d x q usdcIn coinOut = .ok out

theorem handleBuyExactOut_ok {env : Env} {d : Desk} {x : TradeInput} {coinOut maxUsdcIn : UInt64}
    {out : TradeOutcome} (h : handleBuyExactOut env d x coinOut maxUsdcIn = .ok out) :
    ∃ q askPrice usdcIn, BuyExactOutAccepted env d x coinOut q askPrice usdcIn out ∧
      usdcIn ≤ maxUsdcIn := by
  unfold handleBuyExactOut at h
  obtain ⟨u, hacc, h⟩ := bind_eq_ok.mp h
  obtain ⟨-, h⟩ := require_bind_eq_ok.mp h
  obtain ⟨q, hq, h⟩ := bind_eq_ok.mp h
  obtain ⟨a, ha, h⟩ := okOr_bind_eq_ok.mp h
  obtain ⟨usdcIn, husdc, h⟩ := okOr_bind_eq_ok.mp h
  obtain ⟨hslip, h⟩ := require_bind_eq_ok.mp h
  exact ⟨q, a, usdcIn, ⟨hacc, hq, ha, husdc, h⟩, hslip⟩

/-! ### Sells -/

/-- What an accepted sell checked and did, once its amounts are known. -/
structure SellEffect (d : Desk) (x : TradeInput) (q : Quote) (coinIn usdcOut : UInt64)
    (out : TradeOutcome) : Prop where
  per_tx : coinIn.toNat ≤ d.commodity.perTxCap.toNat
  supply : out.desk.coinMint.supply.toNat + coinIn.toNat = d.coinMint.supply.toNat
  reserve : out.desk.reserveVault.amount.toNat + usdcOut.toNat = d.reserveVault.amount.toNat
  redeemed : out.desk.commodity.windowRedeemed.toNat =
    (if WindowRolls d.commodity.windowStart q.now then 0 else d.commodity.windowRedeemed.toNat)
      + (if redeemExempt d.config x.user then 0 else usdcOut.toNat)
  redeemed_le : redeemExempt d.config x.user = false → d.commodity.dailyRedeemCap = 0 ∨
    out.desk.commodity.windowRedeemed.toNat ≤ d.commodity.dailyRedeemCap.toNat
  minted : out.desk.commodity.windowMinted.toNat =
    (if WindowRolls d.commodity.windowStart q.now then 0 else d.commodity.windowMinted.toNat)
      - coinIn.toNat
  marks : TradeMarks d q out.desk
  trade : out.trade = { commodity := d.commodityKey, user := x.user, side := .sell,
                        usdc := usdcOut, coin := coinIn, price := q.price,
                        spreadBps := q.spreadBps }

theorem executeSell_ok {d : Desk} {x : TradeInput} {q : Quote} {coinIn usdcOut : UInt64}
    {out : TradeOutcome} (h : executeSell d x q coinIn usdcOut = .ok out) :
    SellEffect d x q coinIn usdcOut out := by
  unfold executeSell at h
  obtain ⟨hper, h⟩ := require_bind_eq_ok.mp h
  obtain ⟨hres, h⟩ := require_bind_eq_ok.mp h
  obtain ⟨⟨start, redeemed⟩, hwin, h⟩ := okOr_bind_eq_ok.mp h
  obtain ⟨⟨mint, userCoin⟩, hburn, h⟩ := bind_eq_ok.mp h
  obtain ⟨⟨vault, userUsdc⟩, htr, h⟩ := bind_eq_ok.mp h
  cases h
  obtain ⟨rfl, hredeemed, hrcap⟩ := windowAdd_eq_some.mp hwin
  obtain ⟨hvault, -, -, -⟩ := Token.transfer_eq_ok (liftToken_eq_ok.mp htr)
  have hsupply := Token.burn_eq_ok (liftToken_eq_ok.mp hburn)
  exact {
    per_tx := UInt64.le_iff_toNat_le.mp hper
    supply := hsupply
    reserve := hvault
    redeemed := by
      rw [recordTrade_windowRedeemed, Commodity.setWindow_windowRedeemed,
        Commodity.setWindow_windowRedeemed, hredeemed, apply_ite UInt64.toNat, UInt64.toNat_zero]
    redeemed_le := by
      intro hex
      rw [recordTrade_windowRedeemed]
      rw [if_neg (by rw [hex]; exact Bool.false_ne_true)] at hrcap
      exact hrcap
    minted := by
      rw [recordTrade_windowMinted, Commodity.setWindow_windowMinted, windowRelease_toNat,
        Commodity.setWindow_windowMinted, otherCounter_toNat]
    marks := tradeMarks_recordTrade d q _ _ mint vault rfl
    trade := rfl }

/-- An accepted `sell` was paid the bid, rounded down to whole USDC units. -/
structure SellAccepted (env : Env) (d : Desk) (x : TradeInput) (coinIn : UInt64) (q : Quote)
    (bidPrice usdcOut : UInt64) (out : TradeOutcome) : Prop where
  accounts : checkTradeAccounts d x = .ok ()
  coin_pos : 0 < coinIn.toNat
  quote : quote env d x false = .ok q
  bid : bid q.price q.spreadBps = some bidPrice
  usdc : usdcOutForCoin coinIn bidPrice = some usdcOut
  usdc_pos : 0 < usdcOut.toNat
  execute : executeSell d x q coinIn usdcOut = .ok out

theorem handleSell_ok {env : Env} {d : Desk} {x : TradeInput} {coinIn minUsdcOut : UInt64}
    {out : TradeOutcome} (h : handleSell env d x coinIn minUsdcOut = .ok out) :
    ∃ q bidPrice usdcOut, SellAccepted env d x coinIn q bidPrice usdcOut out ∧
      minUsdcOut ≤ usdcOut := by
  unfold handleSell at h
  obtain ⟨u, hacc, h⟩ := bind_eq_ok.mp h
  obtain ⟨hpos, h⟩ := require_bind_eq_ok.mp h
  obtain ⟨q, hq, h⟩ := bind_eq_ok.mp h
  obtain ⟨b, hb, h⟩ := okOr_bind_eq_ok.mp h
  obtain ⟨usdcOut, husdc, h⟩ := okOr_bind_eq_ok.mp h
  obtain ⟨hupos, h⟩ := require_bind_eq_ok.mp h
  obtain ⟨hslip, h⟩ := require_bind_eq_ok.mp h
  exact ⟨q, b, usdcOut, ⟨hacc, UInt64.lt_iff_toNat_lt.mp hpos, hq, hb, husdc,
    UInt64.lt_iff_toNat_lt.mp hupos, h⟩, hslip⟩

/-! ### Sweeps and deposits -/

/-- What an accepted `sweep_spread_fees` checked and did. -/
structure SweepEffect (d : Desk) (amount : UInt64) (d' : Desk) : Prop where
  amount_pos : 0 < amount.toNat
  reserve : d'.reserveVault.amount.toNat + amount.toNat = d.reserveVault.amount.toNat
  mint : d'.coinMint = d.coinMint
  config : d'.config = d.config
  key : d'.commodityKey = d.commodityKey
  commodity : d'.commodity = { d.commodity with reserveBalanceCached := d'.reserveVault.amount }
  ratio : 0 < d.coinMint.supply.toNat →
    d.config.reserveWarnBps.toNat * (d.coinMint.supply.toNat * d.commodity.lastPrice.toNat) ≤
      d'.reserveVault.amount.toNat * (bps * priceScale)

theorem handleSweepSpreadFees_ok {d d' : Desk} {now : Int} {authority : Pubkey}
    {treasuryUsdc : TokenAccount} {amount : UInt64} {ev : SpreadFeesSwept}
    (h : handleSweepSpreadFees d now authority treasuryUsdc amount = .ok (d', ev)) :
    SweepEffect d amount d' := by
  unfold handleSweepSpreadFees at h
  obtain ⟨-, h⟩ := require_bind_eq_ok.mp h
  obtain ⟨-, h⟩ := require_bind_eq_ok.mp h
  obtain ⟨-, h⟩ := require_bind_eq_ok.mp h
  obtain ⟨-, h⟩ := require_bind_eq_ok.mp h
  obtain ⟨hpos, h⟩ := require_bind_eq_ok.mp h
  obtain ⟨hle, h⟩ := require_bind_eq_ok.mp h
  obtain ⟨-, h⟩ := require_bind_eq_ok.mp h
  obtain ⟨-, h⟩ := require_bind_eq_ok.mp h
  obtain ⟨hratio, h⟩ := require_bind_eq_ok.mp h
  obtain ⟨⟨vault, treasury⟩, htr, h⟩ := bind_eq_ok.mp h
  cases h
  obtain ⟨hvault, -, -, -⟩ := Token.transfer_eq_ok (liftToken_eq_ok.mp htr)
  have hsub := UInt64.toNat_sub_of_le _ _ hle
  exact {
    amount_pos := UInt64.lt_iff_toNat_lt.mp hpos
    reserve := hvault
    mint := rfl
    config := rfl
    key := rfl
    commodity := rfl
    ratio := by
      intro hs
      have hr := le_reserveRatioBps16.mp (hratio (UInt64.lt_iff_toNat_lt.mpr hs))
      have heq : (d.reserveVault.amount - amount).toNat = vault.amount.toNat := by omega
      rwa [heq] at hr }

/-- What an accepted `deposit_reserve` did. -/
structure DepositEffect (d : Desk) (amount : UInt64) (d' : Desk) : Prop where
  amount_pos : 0 < amount.toNat
  reserve : d'.reserveVault.amount.toNat = d.reserveVault.amount.toNat + amount.toNat
  mint : d'.coinMint = d.coinMint
  config : d'.config = d.config
  key : d'.commodityKey = d.commodityKey
  commodity : d'.commodity = { d.commodity with reserveBalanceCached := d'.reserveVault.amount }

theorem handleDepositReserve_ok {d d' : Desk} {depositor : Pubkey} {src : TokenAccount}
    {amount : UInt64} {ev : ReserveDeposited}
    (h : handleDepositReserve d depositor src amount = .ok (d', ev)) :
    DepositEffect d amount d' := by
  unfold handleDepositReserve at h
  obtain ⟨-, h⟩ := require_bind_eq_ok.mp h
  obtain ⟨-, h⟩ := require_bind_eq_ok.mp h
  obtain ⟨hpos, h⟩ := require_bind_eq_ok.mp h
  obtain ⟨⟨src', vault⟩, htr, h⟩ := bind_eq_ok.mp h
  cases h
  obtain ⟨-, hvault, -, -⟩ := Token.transfer_eq_ok (liftToken_eq_ok.mp htr)
  exact ⟨UInt64.lt_iff_toNat_lt.mp hpos, hvault, rfl, rfl, rfl, rfl⟩

end IceMarkets.PegDesk
