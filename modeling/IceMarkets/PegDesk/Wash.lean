import IceMarkets.PegDesk.DailyCaps

/-!
# IceMarkets.PegDesk.Wash

Wash round trips against the shared daily caps.

A buy and a sell of the same coins, at one price and time, give back on the second
leg what they took on the first, but a counter cut at zero on the way down cannot
be given back in full. A buy that pays in more than `window_redeemed` leaves the
payout of its sell behind; a sell of more than `window_minted` leaves its buy
behind. These are the only ways a round trip consumes capacity (`buyThenSell_iff`,
`sellThenBuy_iff`), and neutral round trips never cost another user's trade its
place under a cap (`DeskLe`).
-/

namespace IceMarkets.PegDesk

open Lts

/-! ### Round trips -/

section Trades

variable {env : Env} {d d' : Desk} {now : Int} {exempt : Bool} {t : Trade}

theorem Step.bought (h : Step env d ⟨now, .traded exempt t⟩ d') (hside : t.side = .buy) :
    ∃ x q out, now = x.now ∧ t = out.trade ∧ d' = out.desk ∧ Bought env d x q out := by
  obtain ⟨x, q, out, hnow, -, rfl, rfl, hbuy | hsell⟩ := h.traded_inv
  · exact ⟨x, q, out, hnow, rfl, rfl, hbuy⟩
  · rw [hsell.trade_side] at hside
    cases hside

theorem Step.sold (h : Step env d ⟨now, .traded exempt t⟩ d') (hside : t.side = .sell) :
    ∃ x q out, now = x.now ∧ exempt = redeemExempt d.config x.user ∧ t = out.trade ∧
      d' = out.desk ∧ Sold env d x q out := by
  obtain ⟨x, q, out, hnow, hex, rfl, rfl, hbuy | hsell⟩ := h.traded_inv
  · rw [hbuy.trade_side] at hside
    cases hside
  · exact ⟨x, q, out, hnow, hex, rfl, rfl, hsell⟩

end Trades

/-- The window and both its counters. -/
structure Counters (d : Desk) (start : Int) (minted redeemed : Nat) : Prop where
  start : d.commodity.windowStart = start
  minted : d.commodity.windowMinted.toNat = minted
  redeemed : d.commodity.windowRedeemed.toNat = redeemed

/-- Two trades of the same coins at one price, one after the other at a time inside
the window, by anyone for the buy and by a non-exempt user for the sell. -/
structure RoundTrip (env : Env) (d : Desk) (now : Int) (first second : Trade)
    (middle d' : Desk) (firstExempt secondExempt : Bool) : Prop where
  stepFirst : Step env d ⟨now, .traded firstExempt first⟩ middle
  stepSecond : Step env middle ⟨now, .traded secondExempt second⟩ d'
  coin : second.coin = first.coin
  price : second.price = first.price
  inside : ¬ WindowRolls d.commodity.windowStart now

/-- A buy of some coins and then a non-exempt sell of the same. -/
structure BuyThenSell (env : Env) (d : Desk) (now : Int) (buy sell : Trade) (middle d' : Desk)
    (buyerExempt : Bool) : Prop where
  trip : RoundTrip env d now buy sell middle d' buyerExempt false
  buySide : buy.side = .buy
  sellSide : sell.side = .sell

/-- A non-exempt sell of some coins and then a buy of the same. -/
structure SellThenBuy (env : Env) (d : Desk) (now : Int) (sell buy : Trade) (middle d' : Desk)
    (buyerExempt : Bool) : Prop where
  trip : RoundTrip env d now sell buy middle d' false buyerExempt
  sellSide : sell.side = .sell
  buySide : buy.side = .buy

section Legs

variable {env : Env} {d d' : Desk} {now : Int} {exempt : Bool} {t : Trade}

/-- A buy inside the window. -/
theorem counters_of_buy (h : Step env d ⟨now, .traded exempt t⟩ d') (hside : t.side = .buy)
    (hin : ¬ WindowRolls d.commodity.windowStart now) :
    Counters d' d.commodity.windowStart (d.commodity.windowMinted.toNat + t.coin.toNat)
      (d.commodity.windowRedeemed.toNat - t.usdc.toNat) := by
  obtain ⟨x, q, out, rfl, rfl, rfl, hbuy⟩ := h.bought hside
  have hw := hbuy.effect.marks.windowStart
  have hm := hbuy.effect.minted
  have hr := hbuy.effect.redeemed
  rw [hbuy.quoted.now, if_neg hin] at hw hm hr
  exact ⟨hw, hm, hr⟩

/-- A non-exempt sell inside the window. -/
theorem counters_of_sell (h : Step env d ⟨now, .traded false t⟩ d') (hside : t.side = .sell)
    (hin : ¬ WindowRolls d.commodity.windowStart now) :
    Counters d' d.commodity.windowStart (d.commodity.windowMinted.toNat - t.coin.toNat)
      (d.commodity.windowRedeemed.toNat + t.usdc.toNat) := by
  obtain ⟨x, q, out, rfl, hex, rfl, rfl, hsell⟩ := h.sold hside
  have hw := hsell.effect.marks.windowStart
  have hm := hsell.effect.minted
  have hr := hsell.effect.redeemed
  rw [hsell.quoted.now, if_neg hin] at hw hm hr
  rw [← hex] at hr
  exact ⟨hw, hm, hr⟩

/-- A buy takes in at least what its coins are worth. -/
theorem price_le_of_buy (h : Step env d ⟨now, .traded exempt t⟩ d') (hside : t.side = .buy) :
    t.coin.toNat * t.price.toNat ≤ t.usdc.toNat * priceScale := by
  obtain ⟨x, q, out, -, rfl, rfl, hbuy⟩ := h.bought hside
  rw [hbuy.trade_price]
  exact hbuy.price_le

/-- A sell pays out at most what its coins are worth. -/
theorem le_price_of_sell (h : Step env d ⟨now, .traded exempt t⟩ d') (hside : t.side = .sell) :
    t.usdc.toNat * priceScale ≤ t.coin.toNat * t.price.toNat := by
  obtain ⟨x, q, out, -, -, rfl, rfl, hsell⟩ := h.sold hside
  rw [hsell.trade_price]
  exact hsell.le_price

/-- The bid at a price and spread. -/
def bidAt (price : UInt64) (spread : UInt16) : Nat := price.toNat * (bps - spread.toNat) / bps

/-- A sell pays at most `r` exactly when its coins at the bid are worth less than `r + 1`. -/
theorem usdc_le_iff_of_sell (h : Step env d ⟨now, .traded exempt t⟩ d') (hside : t.side = .sell)
    (r : Nat) :
    t.usdc.toNat ≤ r ↔ t.coin.toNat * bidAt t.price t.spreadBps < (r + 1) * priceScale := by
  obtain ⟨x, q, out, -, -, rfl, rfl, hsell⟩ := h.sold hside
  obtain ⟨b, hb, husdc⟩ := hsell.paid
  have hbid : bidAt out.trade.price out.trade.spreadBps = b.toNat := by
    rw [hsell.trade_price, hsell.trade_spreadBps]
    exact ((div_eq_iff_bounds (by decide)).mpr (bid_eq_some.mp hb)).symm
  obtain ⟨hle, hlt⟩ := usdcOutForCoin_eq_some.mp husdc
  rw [hbid]
  constructor
  · intro hr
    exact hlt.trans_le (Nat.mul_le_mul_right _ (by omega))
  · intro hr
    exact Nat.le_of_lt_succ (Nat.lt_of_mul_lt_mul_right (hle.trans_lt hr))

end Legs

section RoundTrips

variable {env : Env} {d d' middle : Desk} {now : Int} {buy sell : Trade} {buyerExempt : Bool}

/-- At one price, the sell of a round trip pays out at most what its buy took in. -/
theorem payout_le {b s : Trade} (hb : b.coin.toNat * b.price.toNat ≤ b.usdc.toNat * priceScale)
    (hs : s.usdc.toNat * priceScale ≤ s.coin.toNat * s.price.toNat) (hcoin : s.coin = b.coin)
    (hprice : s.price = b.price) : s.usdc.toNat ≤ b.usdc.toNat := by
  rw [hcoin, hprice] at hs
  exact Nat.le_of_mul_le_mul_right (hs.trans hb) (show 0 < priceScale by decide)

/-- A buy and a sell leave the payout on top of what the buy could not release. -/
theorem BuyThenSell.counters (h : BuyThenSell env d now buy sell middle d' buyerExempt) :
    Counters d' d.commodity.windowStart d.commodity.windowMinted.toNat
      (d.commodity.windowRedeemed.toNat - buy.usdc.toNat + sell.usdc.toNat) := by
  have h1 := counters_of_buy h.trip.stepFirst h.buySide h.trip.inside
  have h2 := counters_of_sell h.trip.stepSecond h.sellSide (by rw [h1.start]; exact h.trip.inside)
  refine ⟨h2.start.trans h1.start, ?_, ?_⟩
  · rw [h2.minted, h1.minted, h.trip.coin]
    omega
  · rw [h2.redeemed, h1.redeemed]

theorem SellThenBuy.counters (h : SellThenBuy env d now sell buy middle d' buyerExempt) :
    Counters d' d.commodity.windowStart
      (d.commodity.windowMinted.toNat - sell.coin.toNat + sell.coin.toNat)
      (d.commodity.windowRedeemed.toNat + sell.usdc.toNat - buy.usdc.toNat) := by
  have h1 := counters_of_sell h.trip.stepFirst h.sellSide h.trip.inside
  have h2 := counters_of_buy h.trip.stepSecond h.buySide (by rw [h1.start]; exact h.trip.inside)
  refine ⟨h2.start.trans h1.start, ?_, ?_⟩
  · rw [h2.minted, h1.minted, h.trip.coin]
  · rw [h2.redeemed, h1.redeemed]

/-- A round trip consumes no shared capacity. -/
def Neutral (d d' : Desk) : Prop :=
  d'.commodity.windowMinted ≤ d.commodity.windowMinted ∧
    d'.commodity.windowRedeemed ≤ d.commodity.windowRedeemed

/-- A buy and a sell are neutral exactly when the coins at the sell's bid are covered
by the redemptions already in the window. -/
theorem buyThenSell_iff (h : BuyThenSell env d now buy sell middle d' buyerExempt) :
    Neutral d d' ↔ sell.coin.toNat * bidAt sell.price sell.spreadBps <
      (d.commodity.windowRedeemed.toNat + 1) * priceScale := by
  have hc := h.counters
  have hle := payout_le (price_le_of_buy h.trip.stepFirst h.buySide)
    (le_price_of_sell h.trip.stepSecond h.sellSide)
    h.trip.coin h.trip.price
  rw [← usdc_le_iff_of_sell h.trip.stepSecond h.sellSide]
  unfold Neutral
  rw [UInt64.le_iff_toNat_le, UInt64.le_iff_toNat_le, hc.minted, hc.redeemed]
  omega

/-- A sell and a buy are neutral exactly when the coins are covered by the mints
already in the window. -/
theorem sellThenBuy_iff (h : SellThenBuy env d now sell buy middle d' buyerExempt) :
    Neutral d d' ↔ sell.coin ≤ d.commodity.windowMinted := by
  have hc := h.counters
  have hle := payout_le (price_le_of_buy h.trip.stepSecond h.buySide)
    (le_price_of_sell h.trip.stepFirst h.sellSide)
    h.trip.coin.symm h.trip.price.symm
  unfold Neutral
  rw [UInt64.le_iff_toNat_le, UInt64.le_iff_toNat_le, UInt64.le_iff_toNat_le, hc.minted,
    hc.redeemed]
  omega

end RoundTrips

/-! ### Other users' trades -/

/-- `d'` trades on the terms of `d`, in the same window, with no more of it used. -/
structure DeskLe (d d' : Desk) : Prop where
  config : d'.config = d.config
  key : d'.commodityKey = d.commodityKey
  terms : d.commodity.SameTerms d'.commodity
  windowStart : d'.commodity.windowStart = d.commodity.windowStart
  minted : d'.commodity.windowMinted.toNat ≤ d.commodity.windowMinted.toNat
  redeemed : d'.commodity.windowRedeemed.toNat ≤ d.commodity.windowRedeemed.toNat

/-- A neutral round trip inside the window. -/
inductive NeutralTrip (env : Env) : Desk → Desk → Prop
  | buyThenSell {d d' middle : Desk} {now : Int} {buy sell : Trade} {buyerExempt : Bool}
      (h : BuyThenSell env d now buy sell middle d' buyerExempt)
      (covered : sell.coin.toNat * bidAt sell.price sell.spreadBps <
        (d.commodity.windowRedeemed.toNat + 1) * priceScale) : NeutralTrip env d d'
  | sellThenBuy {d d' middle : Desk} {now : Int} {buy sell : Trade} {buyerExempt : Bool}
      (h : SellThenBuy env d now sell buy middle d' buyerExempt)
      (covered : sell.coin ≤ d.commodity.windowMinted) : NeutralTrip env d d'

/-- From one desk, `d'` is reached by the trades that reach `d` and any number of
neutral round trips among them. -/
inductive Washed (env : Env) : Desk → Desk → Prop
  | refl (d : Desk) : Washed env d d
  | wash {d d' d'' : Desk} (h : Washed env d d') (trip : NeutralTrip env d' d'') :
      Washed env d d''
  | trade {d d' e e' : Desk} {now : Int} {exempt : Bool} {t : Trade} (h : Washed env d d')
      (without : Step env d ⟨now, .traded exempt t⟩ e)
      (beside : Step env d' ⟨now, .traded exempt t⟩ e') : Washed env e e'

section DeskLe

variable {env : Env} {d d' e e' middle : Desk} {now : Int} {exempt : Bool} {t : Trade}

theorem DeskLe.refl (d : Desk) : DeskLe d d := ⟨rfl, rfl, .refl _, rfl, le_refl _, le_refl _⟩

theorem DeskLe.trans {d'' : Desk} (h : DeskLe d d') (h' : DeskLe d' d'') : DeskLe d d'' where
  config := h'.config.trans h.config
  key := h'.key.trans h.key
  terms := h.terms.trans h'.terms
  windowStart := h'.windowStart.trans h.windowStart
  minted := h'.minted.trans h.minted
  redeemed := h'.redeemed.trans h.redeemed

theorem Step.marks (h : Step env d ⟨now, .traded exempt t⟩ d') :
    ∃ q, q.now = now ∧ TradeMarks d q d' := by
  obtain ⟨x, q, out, rfl, -, rfl, rfl, hbuy | hsell⟩ := h.traded_inv
  · exact ⟨q, hbuy.quoted.now, hbuy.effect.marks⟩
  · exact ⟨q, hsell.quoted.now, hsell.effect.marks⟩

theorem deskLe_of_roundTrip {first second : Trade} {e₁ e₂ : Bool}
    (h : RoundTrip env d now first second middle d' e₁ e₂)
    (hstart : d'.commodity.windowStart = d.commodity.windowStart) (hn : Neutral d d') :
    DeskLe d d' := by
  obtain ⟨q, -, hq⟩ := h.stepFirst.marks
  obtain ⟨q', -, hq'⟩ := h.stepSecond.marks
  exact {
    config := hq'.config.trans hq.config
    key := hq'.key.trans hq.key
    terms := hq.terms.trans hq'.terms
    windowStart := hstart
    minted := UInt64.le_iff_toNat_le.mp hn.1
    redeemed := UInt64.le_iff_toNat_le.mp hn.2 }

theorem NeutralTrip.deskLe (h : NeutralTrip env d d') : DeskLe d d' := by
  cases h with
  | buyThenSell h covered =>
      exact deskLe_of_roundTrip h.trip h.counters.start ((buyThenSell_iff h).mpr covered)
  | sellThenBuy h covered =>
      exact deskLe_of_roundTrip h.trip h.counters.start ((sellThenBuy_iff h).mpr covered)

/-- A counter of the smaller desk stays the smaller through the same trade. -/
theorem counter_le {ws : Int} {used used' v v' a b : Nat} (hle : used' ≤ used)
    (hv : v = (if WindowRolls ws now then 0 else used) + a - b)
    (hv' : v' = (if WindowRolls ws now then 0 else used') + a - b) : v' ≤ v := by
  split at hv <;> split at hv' <;> omega

/-- The same trade keeps the desks in order. -/
theorem DeskLe.trade (h : DeskLe d d') (hs : Step env d ⟨now, .traded exempt t⟩ e)
    (hs' : Step env d' ⟨now, .traded exempt t⟩ e') : DeskLe e e' := by
  obtain ⟨q, hnow, hq⟩ := hs.marks
  obtain ⟨q', hnow', hq'⟩ := hs'.marks
  have hcounters : e'.commodity.windowMinted.toNat ≤ e.commodity.windowMinted.toNat ∧
      e'.commodity.windowRedeemed.toNat ≤ e.commodity.windowRedeemed.toNat := by
    cases hside : t.side with
    | buy =>
        obtain ⟨x, p, out, rfl, rfl, rfl, hbuy⟩ := hs.bought hside
        obtain ⟨x', p', out', hx, hout, rfl, hbuy'⟩ := hs'.bought hside
        have hm := hbuy.effect.minted
        have hm' := hbuy'.effect.minted
        have hr := hbuy.effect.redeemed
        have hr' := hbuy'.effect.redeemed
        rw [hbuy.quoted.now] at hm hr
        rw [hbuy'.quoted.now, ← hx, h.windowStart, ← hout] at hm' hr'
        exact ⟨counter_le (b := 0) h.minted hm hm', counter_le (a := 0) h.redeemed hr hr'⟩
    | sell =>
        obtain ⟨x, p, out, rfl, hex, rfl, rfl, hsell⟩ := hs.sold hside
        obtain ⟨x', p', out', hx, hex', hout, rfl, hsell'⟩ := hs'.sold hside
        have hm := hsell.effect.minted
        have hm' := hsell'.effect.minted
        have hr := hsell.effect.redeemed
        have hr' := hsell'.effect.redeemed
        rw [hsell.quoted.now] at hm hr
        rw [hsell'.quoted.now, ← hx, h.windowStart, ← hout] at hm' hr'
        rw [← hex] at hr
        rw [← hex'] at hr'
        exact ⟨counter_le (a := 0) h.minted hm hm', counter_le (b := 0) h.redeemed hr hr'⟩
  exact {
    config := by rw [hq'.config, hq.config, h.config]
    key := by rw [hq'.key, hq.key, h.key]
    terms := (hq.terms.symm.trans h.terms).trans hq'.terms
    windowStart := by rw [hq'.windowStart, hq.windowStart, hnow, hnow', h.windowStart]
    minted := hcounters.1
    redeemed := hcounters.2 }

theorem Washed.deskLe (h : Washed env d d') : DeskLe d d' := by
  induction h with
  | refl d => exact DeskLe.refl d
  | wash _ trip ih => exact ih.trans trip.deskLe
  | trade _ without beside ih => exact ih.trade without beside

end DeskLe

/-- The two codes a full daily cap raises. -/
def dailyCapErrors : List PegDeskError := [.dailyMintCapExceeded, .dailyRedeemCapExceeded]

/-- A trade was turned away by a daily cap. -/
def DailyCapRejected (r : DeskResult TradeOutcome) : Prop :=
  ∃ e ∈ dailyCapErrors, r = .error (.custom e)

theorem custom_ne_of_dailyCap {e e' : PegDeskError} (he : e ∈ dailyCapErrors)
    (he' : e' ∉ dailyCapErrors) :
    (ProgramError.custom e' : ProgramError PegDeskError) ≠ .custom e := by
  intro h
  cases h
  exact he' he

/-- No daily cap is met before the amounts are known. -/
theorem dailyCap_not_entry : ∀ e ∈ dailyCapErrors,
    e ∉ [PegDeskError.invalidParams, .unauthorized] := by
  decide

theorem dailyCap_not_quote : ∀ e ∈ dailyCapErrors, e ∉ quoteErrors := by decide

section Rejections

variable {env : Env} {d d' : Desk} {x : TradeInput} {q : Quote} {e : PegDeskError}

/-- The only daily cap a buy meets is the mint cap, at its `window_add`. -/
theorem executeBuy_dailyCap {usdcIn coinOut : UInt64} (he : e ∈ dailyCapErrors)
    (h : executeBuy d x q usdcIn coinOut = .error (.custom e)) :
    windowAdd d.commodity.windowStart d.commodity.windowMinted q.now dailyWindowSecs
      d.commodity.dailyMintCap coinOut = none := by
  unfold executeBuy at h
  rw [require_bind_eq_error (custom_ne_of_dailyCap he (by decide)),
    require_bind_eq_error (custom_ne_of_dailyCap he (by decide))] at h
  obtain ⟨newSupply, -, h⟩ :=
    (okOr_bind_eq_error (custom_ne_of_dailyCap he (by decide))).mp h.2.2
  rw [require_bind_eq_error (custom_ne_of_dailyCap he (by decide))] at h
  obtain ⟨newReserve, -, h⟩ :=
    (okOr_bind_eq_error (custom_ne_of_dailyCap he (by decide))).mp h.2
  rw [require_bind_eq_error (custom_ne_of_dailyCap he (by decide))] at h
  rcases bind_eq_error.mp h.2 with hcap | ⟨w, -, h⟩
  · exact (okOr_eq_error.mp hcap).1
  · obtain ⟨p, -, h⟩ := liftToken_bind_eq_error.mp h
    obtain ⟨p', -, h⟩ := liftToken_bind_eq_error.mp h
    cases h

/-- The only daily cap a sell meets is the redemption cap, at its `window_add`. -/
theorem executeSell_dailyCap {coinIn usdcOut : UInt64} (he : e ∈ dailyCapErrors)
    (h : executeSell d x q coinIn usdcOut = .error (.custom e)) :
    windowAdd d.commodity.windowStart d.commodity.windowRedeemed q.now dailyWindowSecs
      (if redeemExempt d.config x.user then 0 else d.commodity.dailyRedeemCap)
      (if redeemExempt d.config x.user then 0 else usdcOut) = none := by
  unfold executeSell at h
  rw [require_bind_eq_error (custom_ne_of_dailyCap he (by decide)),
    require_bind_eq_error (custom_ne_of_dailyCap he (by decide))] at h
  rcases bind_eq_error.mp h.2.2 with hcap | ⟨w, -, h⟩
  · exact (okOr_eq_error.mp hcap).1
  · obtain ⟨p, -, h⟩ := liftToken_bind_eq_error.mp h
    obtain ⟨p', -, h⟩ := liftToken_bind_eq_error.mp h
    cases h

/-- An accepted buy passed its `window_add`. -/
theorem executeBuy_windowAdd {usdcIn coinOut : UInt64} {out : TradeOutcome}
    (h : executeBuy d x q usdcIn coinOut = .ok out) :
    windowAdd d.commodity.windowStart d.commodity.windowMinted q.now dailyWindowSecs
      d.commodity.dailyMintCap coinOut =
        some (out.desk.commodity.windowStart, out.desk.commodity.windowMinted) :=
  windowAdd_eq_some.mpr ⟨(executeBuy_ok h).marks.windowStart, (executeBuy_ok h).minted,
    (executeBuy_ok h).minted_le⟩

/-- An accepted sell passed its `window_add`. -/
theorem executeSell_windowAdd {coinIn usdcOut : UInt64} {out : TradeOutcome}
    (h : executeSell d x q coinIn usdcOut = .ok out) :
    windowAdd d.commodity.windowStart d.commodity.windowRedeemed q.now dailyWindowSecs
      (if redeemExempt d.config x.user then 0 else d.commodity.dailyRedeemCap)
      (if redeemExempt d.config x.user then 0 else usdcOut) =
        some (out.desk.commodity.windowStart, out.desk.commodity.windowRedeemed) := by
  have heff := executeSell_ok h
  rw [windowAdd_eq_some]
  refine ⟨heff.marks.windowStart, ?_, ?_⟩
  · rw [heff.redeemed, apply_ite UInt64.toNat, UInt64.toNat_zero]
  · cases hex : redeemExempt d.config x.user with
    | true => exact Or.inl rfl
    | false => exact heff.redeemed_le hex

/-- What a buy mints at a time decides on the mint cap, whatever is paid for it. -/
theorem executeBuy_not_rejected {q' : Quote} {usdcIn usdcIn' coinOut : UInt64} {out : TradeOutcome}
    (hle : DeskLe d d') (hnow : q'.now = q.now)
    (hok : executeBuy d x q usdcIn coinOut = .ok out) (he : e ∈ dailyCapErrors) :
    executeBuy d' x q' usdcIn' coinOut ≠ .error (.custom e) := by
  intro h
  have hnone := executeBuy_dailyCap he h
  rw [hle.windowStart, hle.terms.dailyMintCap, hnow] at hnone
  exact windowAdd_mono (executeBuy_windowAdd hok) hle.minted hnone

theorem executeSell_not_rejected {coinIn usdcOut : UInt64} {out : TradeOutcome} (hle : DeskLe d d')
    (hok : executeSell d x q coinIn usdcOut = .ok out) (he : e ∈ dailyCapErrors) :
    executeSell d' x q coinIn usdcOut ≠ .error (.custom e) := by
  intro h
  have hnone := executeSell_dailyCap he h
  rw [hle.windowStart, hle.terms.dailyRedeemCap, hle.config] at hnone
  exact windowAdd_mono (executeSell_windowAdd hok) hle.redeemed hnone

/-- Both desks quote the trade the same spread, if they quote it at all. -/
def SameSpread (env : Env) (d d' : Desk) (x : TradeInput) (isBuy : Bool) : Prop :=
  ∀ q q', quote env d x isBuy = .ok q → quote env d' x isBuy = .ok q' → q'.spreadBps = q.spreadBps

/-- On the same terms a trade is quoted the same but for its spread. -/
theorem quote_congr {isBuy : Bool} {q' : Quote} (hle : DeskLe d d')
    (hsame : SameSpread env d d' x isBuy) (hq : quote env d x isBuy = .ok q)
    (hq' : quote env d' x isBuy = .ok q') : q' = q := by
  have hspread := hsame q q' hq hq'
  obtain ⟨op, hop, hp, ht, -⟩ := (quote_ok hq).reading
  obtain ⟨op', hop', hp', ht', -⟩ := (quote_ok hq').reading
  rw [hle.key, readPrice_congr hle.terms, hop] at hop'
  cases hop'
  have hnow := (quote_ok hq).now
  have hnow' := (quote_ok hq').now
  cases q
  cases q'
  simp only [Quote.mk.injEq]
  exact ⟨hp'.symm.trans hp, ht'.symm.trans ht, hspread, hnow'.trans hnow.symm⟩

theorem handleBuy_not_rejected {usdcIn minCoinOut : UInt64} (hle : DeskLe d d')
    (hsame : SameSpread env d d' x true) (hacc : Accepted (handleBuy env d x usdcIn minCoinOut)) :
    ¬ DailyCapRejected (handleBuy env d' x usdcIn minCoinOut) := by
  intro h
  obtain ⟨e, he, h⟩ := h
  obtain ⟨out, hok⟩ := hacc
  obtain ⟨q, a, coinOut, hok, -⟩ := handleBuy_ok hok
  unfold handleBuy at h
  obtain ⟨-, -, h⟩ := (checkTradeAccounts_raises.bind_eq_error (dailyCap_not_entry e he)).mp h
  rw [require_bind_eq_error (custom_ne_of_dailyCap he (by decide))] at h
  obtain ⟨q', hq', h⟩ := (quote_raises.bind_eq_error (dailyCap_not_quote e he)).mp h.2
  obtain rfl := quote_congr hle hsame hok.quote hq'
  obtain ⟨a', ha', h⟩ := (okOr_bind_eq_error (custom_ne_of_dailyCap he (by decide))).mp h
  cases hok.ask.symm.trans ha'
  obtain ⟨c', hc', h⟩ := (okOr_bind_eq_error (custom_ne_of_dailyCap he (by decide))).mp h
  cases hok.coin.symm.trans hc'
  rw [require_bind_eq_error (custom_ne_of_dailyCap he (by decide))] at h
  exact executeBuy_not_rejected hle rfl hok.execute he h.2

theorem handleBuyExactOut_not_rejected {coinOut maxUsdcIn : UInt64} (hle : DeskLe d d')
    (hacc : Accepted (handleBuyExactOut env d x coinOut maxUsdcIn)) :
    ¬ DailyCapRejected (handleBuyExactOut env d' x coinOut maxUsdcIn) := by
  intro h
  obtain ⟨e, he, h⟩ := h
  obtain ⟨out, hok⟩ := hacc
  obtain ⟨q, a, usdcIn, hok, -⟩ := handleBuyExactOut_ok hok
  unfold handleBuyExactOut at h
  obtain ⟨-, -, h⟩ := (checkTradeAccounts_raises.bind_eq_error (dailyCap_not_entry e he)).mp h
  rw [require_bind_eq_error (custom_ne_of_dailyCap he (by decide))] at h
  obtain ⟨q', hq', h⟩ := (quote_raises.bind_eq_error (dailyCap_not_quote e he)).mp h.2
  have hnow : q'.now = q.now := (quote_ok hq').now.trans (quote_ok hok.quote).now.symm
  obtain ⟨a', -, h⟩ := (okOr_bind_eq_error (custom_ne_of_dailyCap he (by decide))).mp h
  obtain ⟨usdcIn', -, h⟩ := (okOr_bind_eq_error (custom_ne_of_dailyCap he (by decide))).mp h
  rw [require_bind_eq_error (custom_ne_of_dailyCap he (by decide))] at h
  exact executeBuy_not_rejected hle hnow hok.execute he h.2

theorem handleSell_not_rejected {coinIn minUsdcOut : UInt64} (hle : DeskLe d d')
    (hsame : SameSpread env d d' x false)
    (hacc : Accepted (handleSell env d x coinIn minUsdcOut)) :
    ¬ DailyCapRejected (handleSell env d' x coinIn minUsdcOut) := by
  intro h
  obtain ⟨e, he, h⟩ := h
  obtain ⟨out, hok⟩ := hacc
  obtain ⟨q, b, usdcOut, hok, -⟩ := handleSell_ok hok
  unfold handleSell at h
  obtain ⟨-, -, h⟩ := (checkTradeAccounts_raises.bind_eq_error (dailyCap_not_entry e he)).mp h
  rw [require_bind_eq_error (custom_ne_of_dailyCap he (by decide))] at h
  obtain ⟨q', hq', h⟩ := (quote_raises.bind_eq_error (dailyCap_not_quote e he)).mp h.2
  obtain rfl := quote_congr hle hsame hok.quote hq'
  obtain ⟨b', hb', h⟩ := (okOr_bind_eq_error (custom_ne_of_dailyCap he (by decide))).mp h
  cases hok.bid.symm.trans hb'
  obtain ⟨u', hu', h⟩ := (okOr_bind_eq_error (custom_ne_of_dailyCap he (by decide))).mp h
  cases hok.usdc.symm.trans hu'
  rw [require_bind_eq_error (custom_ne_of_dailyCap he (by decide)),
    require_bind_eq_error (custom_ne_of_dailyCap he (by decide))] at h
  exact executeSell_not_rejected hle hok.execute he h.2.2

end Rejections

/-- Round trips and the daily caps: exactly when each order of a round trip is
neutral, and that no number of neutral round trips, wherever they fall among other
trades, makes a cap turn away a trade that is accepted without them and, unless the
coin it buys is given, is quoted the same spread. -/
theorem wash_round_trips (env : Env) :
    (∀ d now buy sell middle d' buyerExempt,
      BuyThenSell env d now buy sell middle d' buyerExempt →
        (Neutral d d' ↔ sell.coin.toNat * bidAt sell.price sell.spreadBps <
          (d.commodity.windowRedeemed.toNat + 1) * priceScale)) ∧
    (∀ d now sell buy middle d' buyerExempt,
      SellThenBuy env d now sell buy middle d' buyerExempt →
        (Neutral d d' ↔ sell.coin ≤ d.commodity.windowMinted)) ∧
    (∀ d d' x, Washed env d d' →
      (SameSpread env d d' x true → ∀ usdcIn minCoinOut,
        Accepted (handleBuy env d x usdcIn minCoinOut) →
          ¬ DailyCapRejected (handleBuy env d' x usdcIn minCoinOut)) ∧
      (∀ coinOut maxUsdcIn,
        Accepted (handleBuyExactOut env d x coinOut maxUsdcIn) →
          ¬ DailyCapRejected (handleBuyExactOut env d' x coinOut maxUsdcIn)) ∧
      (SameSpread env d d' x false → ∀ coinIn minUsdcOut,
        Accepted (handleSell env d x coinIn minUsdcOut) →
          ¬ DailyCapRejected (handleSell env d' x coinIn minUsdcOut))) :=
  ⟨fun _ _ _ _ _ _ _ h => buyThenSell_iff h, fun _ _ _ _ _ _ _ h => sellThenBuy_iff h,
    fun _ _ _ h => ⟨fun hs _ _ => handleBuy_not_rejected h.deskLe hs,
      fun _ _ => handleBuyExactOut_not_rejected h.deskLe,
      fun hs _ _ => handleSell_not_rejected h.deskLe hs⟩⟩

namespace Sample

/-- A redemption cap of 100 USDC of which `redeemed` is used, in a window opened at 1000. -/
def redeemable (redeemed : UInt64) : Desk :=
  desk { commodity with dailyRedeemCap := 100000000, windowStart := 1000
                        windowRedeemed := redeemed } 1100000000 10000000

/-- A purchase of 50 USDC at a price of 100. -/
def washBought (redeemed : UInt64) : DeskResult TradeOutcome :=
  handleBuy env (redeemable redeemed) (input 1000 10000000000) 50000000 0

def washBoughtFresh : TradeOutcome := acceptedValue (washBought 0) (by decide +kernel)

def washSoldFresh : TradeOutcome :=
  acceptedValue (handleSell env washBoughtFresh.desk (input 1000 10000000000)
    washBoughtFresh.trade.coin 0) (by decide +kernel)

def washBoughtUsed : TradeOutcome := acceptedValue (washBought 60000000) (by decide +kernel)

def washSoldUsed : TradeOutcome :=
  acceptedValue (handleSell env washBoughtUsed.desk (input 1000 10000000000)
    washBoughtUsed.trade.coin 0) (by decide +kernel)

theorem washFresh : BuyThenSell env (redeemable 0) 1000 washBoughtFresh.trade washSoldFresh.trade
    washBoughtFresh.desk washSoldFresh.desk false where
  trip := {
    stepFirst := .buy (x := input 1000 10000000000) (eq_ok_acceptedValue (by decide +kernel))
    stepSecond := .sell (x := input 1000 10000000000) (eq_ok_acceptedValue (by decide +kernel))
    coin := by decide +kernel
    price := by decide +kernel
    inside := by decide +kernel }
  buySide := by decide +kernel
  sellSide := by decide +kernel

theorem washUsed : BuyThenSell env (redeemable 60000000) 1000 washBoughtUsed.trade
    washSoldUsed.trade washBoughtUsed.desk washSoldUsed.desk false where
  trip := {
    stepFirst := .buy (x := input 1000 10000000000) (eq_ok_acceptedValue (by decide +kernel))
    stepSecond := .sell (x := input 1000 10000000000) (eq_ok_acceptedValue (by decide +kernel))
    coin := by decide +kernel
    price := by decide +kernel
    inside := by decide +kernel }
  buySide := by decide +kernel
  sellSide := by decide +kernel

theorem accepted_of_isOk {α : Type} {r : DeskResult α} (h : r.isOk = true) : Accepted r :=
  ⟨acceptedValue r h, eq_ok_acceptedValue h⟩

end Sample

/-- A round trip of 50 USDC with 60 USDC of redemptions in the window, and then a
sell that the cap still admits. -/
theorem wash_round_trips_covered :
    Neutral (Sample.redeemable 60000000) Sample.washSoldUsed.desk ∧
      ¬ DailyCapRejected (handleSell Sample.env Sample.washSoldUsed.desk
        (Sample.input 1010 10000000000) 300000 0) := by
  have hwash := wash_round_trips Sample.env
  have hcovered : Sample.washSoldUsed.trade.coin.toNat *
      bidAt Sample.washSoldUsed.trade.price Sample.washSoldUsed.trade.spreadBps <
        ((Sample.redeemable 60000000).commodity.windowRedeemed.toNat + 1) * priceScale := by
    decide +kernel
  refine ⟨(hwash.1 _ _ _ _ _ _ _ Sample.washUsed).mpr hcovered, ?_⟩
  refine (hwash.2.2 (Sample.redeemable 60000000) _ (Sample.input 1010 10000000000)
    (.wash (.refl _) (.buyThenSell Sample.washUsed hcovered))).2.2 ?_ _ _
    (Sample.accepted_of_isOk (by decide +kernel))
  intro q q' hq hq'
  have hok := eq_ok_acceptedValue (x := quote Sample.env (Sample.redeemable 60000000)
    (Sample.input 1010 10000000000) false) (by decide +kernel)
  have hok' := eq_ok_acceptedValue (x := quote Sample.env Sample.washSoldUsed.desk
    (Sample.input 1010 10000000000) false) (by decide +kernel)
  cases hok.symm.trans hq
  cases hok'.symm.trans hq'
  decide +kernel

/-- A round trip of 50 USDC in a fresh window leaves its payout in `window_redeemed`,
and the sell of one coin that the cap admitted before is turned away. -/
theorem wash_consumes_redeem_cap :
    BuyThenSell Sample.env (Sample.redeemable 0) 1000 Sample.washBoughtFresh.trade
        Sample.washSoldFresh.trade Sample.washBoughtFresh.desk Sample.washSoldFresh.desk false ∧
      ¬ Neutral (Sample.redeemable 0) Sample.washSoldFresh.desk ∧
      Accepted (handleSell Sample.env (Sample.redeemable 0) (Sample.input 1010 10000000000)
        1000000 0) ∧
      handleSell Sample.env Sample.washSoldFresh.desk (Sample.input 1010 10000000000) 1000000 0 =
        .error (.custom .dailyRedeemCapExceeded) := by
  refine ⟨Sample.washFresh, ?_, Sample.accepted_of_isOk (by decide +kernel), by decide +kernel⟩
  unfold Neutral
  decide +kernel

end IceMarkets.PegDesk
