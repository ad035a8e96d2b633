import IceMarkets.Buyback.Bounds
import IceMarkets.Sdk.Quotes

/-!
# IceMarkets.Keeper.Sizing

How the keeper sizes a buyback (`apps/keeper/src/cycles/buyback.ts`), against the checks of
the programs that execute it.

The keeper expects the Peg Desk's bid at the base spread, and the desk pays its bid at the
effective spread. Of the four bounds the keeper derives, two can fail where the desk pays
less, and the other two where it pays more, which takes a closed spread below the base one.
On the two bids they come to: the one paid is at least the one expected less the slippage
(at most 90 bps of it), or exceeds neither that by more than one percent nor the cap, each
up to what rounding down drops (`bounds_iff`).
-/

namespace IceMarkets.Keeper

open Sdk Sdk.Pricing Buyback

/-! ### The cycle -/

/-- `haircutBps` of `damm.ts`. -/
def haircutBps (x bps : Int) : Priced Int :=
  if bps < 0 ∨ 10000 < bps then throwPricing ("haircutBps: bad bps " ++ toString bps)
  else .ok ((x * (10000 - bps)).tdiv 10000)

/-- The commodity whose vault the keeper picked, and its reading. -/
structure PickedVault where
  isComposite : Bool
  view : CommodityAccountView
  reading : OracleReading
  vault : Int
  deriving DecidableEq, Repr

/-- The arguments of `convert_and_burn`, and what its route was built to spend. -/
structure PlannedCycle where
  coinAmount : Int
  minUsdcOut : Int
  minIceOut : Int
  routeUsdcIn : Int
  deriving DecidableEq, Repr

/-- `runBuybackCycle` from the vault it picked on; what it sends, if anything. `route` is the
expected ICE of the route for an amount, where one is found for the configured program. -/
def runBuybackCycle (st : BuybackState) (now slippageBps : Int) (best : PickedVault)
    (route : Int → Option Int) : Priced (Option PlannedCycle) :=
  if st.paused then .ok none
  else if now - st.lastCycleTs < st.minIntervalSecs.toNat then .ok none
  else if best.isComposite then .ok none
  else do
    let coinAmount := (best.vault * (10000 - st.reserveBufferBps.toNat)).tdiv 10000
    let bid ← bidPrice best.reading.price best.view.baseSpreadBps
    if st.maxPerCycleUsdc = 0 then .ok none
    else if st.icePerUsdcAnchor = 0 then .ok none
    else if bid = 0 then throwPricing "Division by zero"
    else do
      let maxCoin := ((st.maxPerCycleUsdc.toNat : Int) * 100000000).tdiv bid
      let coinAmount := if maxCoin < coinAmount then maxCoin else coinAmount
      if coinAmount = 0 then .ok none
      else do
        let usdcExpected ← usdcOutForCoinIn coinAmount bid coinDecimals usdcDecimals
        let minUsdcOut ← haircutBps usdcExpected slippageBps
        if minUsdcOut = 0 then .ok none
        else do
          let routeUsdcIn ← haircutBps usdcExpected (min slippageBps 90)
          match route routeUsdcIn with
          | none => .ok none
          | some expectedOut => do
              let minIceOut ← haircutBps expectedOut slippageBps
              if minIceOut = 0 then .ok none
              else .ok (some { coinAmount, minUsdcOut, minIceOut, routeUsdcIn })

/-! ### Its execution -/

/-- The work accounts move as planned: the COIN arrives, the desk pays `sold`, and the route spends
what it was built for. -/
structure Performs (cpis : Cpis) (ci : CycleInput) (p : PlannedCycle)
    (coin sold : UInt64) : Prop where
  moves : ∃ w₁ w₂ w₃, cpis.withdrawForBuyback coin ci.work = .ok w₁ ∧
    w₁.usdc.amount = ci.work.usdc.amount ∧
    cpis.pegDeskSell coin ci.minUsdcOut w₁ = .ok w₂ ∧
    w₂.usdc.amount.toNat = w₁.usdc.amount.toNat + sold.toNat ∧
    cpis.invokeRoute ci.routeData w₂ = .ok w₃ ∧
    (w₂.usdc.amount.toNat : Int) = w₃.usdc.amount.toNat + p.routeUsdcIn

/-- The bounds a planned cycle must meet, for what the desk pays. -/
structure WithinBounds (s : BuybackState) (p : PlannedCycle) (sold : UInt64) : Prop where
  min : p.minUsdcOut ≤ sold.toNat
  cap : sold.toNat ≤ s.maxPerCycleUsdc.toNat
  enough : p.routeUsdcIn ≤ sold.toNat
  min_spend : ((max (minSpend sold) 1).toNat : Int) ≤ p.routeUsdcIn

/-- The executed cycle's checks on those bounds pass. -/
structure CyclePasses (env : PegDesk.Env) (d : PegDesk.Desk) (x : PegDesk.TradeInput)
    (q : PegDesk.Quote)
    (s : BuybackState) (vault : UInt64) (p : PlannedCycle) : Prop where
  bounds : ∃ bid sold, PegDesk.bid q.price q.spreadBps = some bid ∧
    PegDesk.usdcOutForCoin (.ofNat p.coinAmount.toNat) bid = some sold ∧ WithinBounds s p sold
  sell : PegDesk.handleSell env d x (.ofNat p.coinAmount.toNat) (.ofNat p.minUsdcOut.toNat) ≠
    .error (.custom .slippageExceeded)
  cycle : ∀ cpis auth ci bid sold, PegDesk.bid q.price q.spreadBps = some bid →
    PegDesk.usdcOutForCoin (.ofNat p.coinAmount.toNat) bid = some sold →
    ci.coinAmount = .ofNat p.coinAmount.toNat → ci.minUsdcOut = .ofNat p.minUsdcOut.toNat →
    ci.buybackVault = vault → Performs cpis ci p (.ofNat p.coinAmount.toNat) sold →
    ∀ e ∈ [BuybackError.sellBelowMinimum, .cycleCapExceeded, .usdcUnderspent],
      handleConvertAndBurn cpis auth s ci ≠ .error (.custom e)

/-! ### When they pass -/

/-- The bid at a spread, rounded down. -/
def bidAt (price spreadBps : Nat) : Nat := price * (10000 - spreadBps) / 10000

/-- What COIN is worth at a bid, rounded down. -/
def usdcAt (coin bid : Nat) : Nat := coin * bid / 100000000

/-- The COIN of a cycle: the vault less its buffer, at most what the cap is worth. -/
def coinFor (s : BuybackState) (vault bid : Nat) : Nat :=
  min (vault * (10000 - s.reserveBufferBps.toNat) / 10000)
    (s.maxPerCycleUsdc.toNat * 100000000 / bid)

/-- What the two roundings of the route's USDC drop, in 1e-12 of a base unit: at a bid, with so
many bps kept. -/
def routeRounding (coin bid keep : Nat) : Nat :=
  coin * bid % 100000000 * keep + coin * bid / 100000000 * keep % 10000 * 100000000

/-- On the COIN sold, the desk's bid is at least the keeper's less the slippage, up to what
rounding drops; where it is higher, its worth is within a base unit of the cap, and 99 % of it at
most the keeper's less the slippage, up to rounding. -/
def SpreadTolerated (s : BuybackState) (vault price baseSpread spread slippageBps : Nat) : Prop :=
  let base := bidAt price baseSpread
  let bid := bidAt price spread
  let coin := coinFor s vault base
  let keep := 10000 - min slippageBps 90
  if bid ≤ base then coin * base * keep ≤ coin * bid * 10000 + routeRounding coin base keep
  else coin * bid < (s.maxPerCycleUsdc.toNat + 1) * 100000000 ∧
    coin * bid * 9900 + routeRounding coin base keep ≤
      coin * base * keep + routeRounding coin bid 9900

instance (s : BuybackState) (vault price baseSpread spread slippageBps : Nat) :
    Decidable (SpreadTolerated s vault price baseSpread spread slippageBps) :=
  inferInstanceAs (Decidable (if _ ≤ _ then _ ≤ _ else _ < _ ∧ _ ≤ _))

section Rounding

variable {coin bid bid' keep cap : Nat}

/-- The worth of COIN at a bid, less a haircut, is what it rounds to and what that drops. -/
theorem mul_bid_keep (coin bid keep : Nat) : coin * bid * keep =
    usdcAt coin bid * keep / 10000 * 1000000000000 + routeRounding coin bid keep := by
  have hworth := Nat.div_add_mod (coin * bid) 100000000
  have hkept := Nat.div_add_mod (coin * bid / 100000000 * keep) 10000
  unfold usdcAt routeRounding
  calc coin * bid * keep
      = (100000000 * (coin * bid / 100000000) + coin * bid % 100000000) * keep := by rw [hworth]
    _ = 100000000 * (coin * bid / 100000000 * keep) + coin * bid % 100000000 * keep := by ring
    _ = 100000000 * (10000 * (coin * bid / 100000000 * keep / 10000) +
          coin * bid / 100000000 * keep % 10000) + coin * bid % 100000000 * keep := by rw [hkept]
    _ = _ := by ring

/-- A route is paid for exactly when the desk's bid is at least the keeper's less the haircut, up
to what rounding drops. -/
theorem route_le_iff : usdcAt coin bid * keep / 10000 ≤ usdcAt coin bid' ↔
    coin * bid * keep ≤ coin * bid' * 10000 + routeRounding coin bid keep := by
  rw [mul_bid_keep, add_le_add_iff_right, usdcAt.eq_1 coin bid',
    Nat.le_div_iff_mul_le (by decide)]
  omega

theorem usdcAt_le_iff : usdcAt coin bid' ≤ cap ↔ coin * bid' < (cap + 1) * 100000000 := by
  unfold usdcAt
  rw [← Nat.lt_succ_iff, Nat.div_lt_iff_lt_mul (by decide)]

/-- A route spends enough exactly when 99 % of the desk's bid is at most the keeper's less the
haircut, each up to what rounding drops. -/
theorem spend_le_iff : usdcAt coin bid' * 9900 / 10000 ≤ usdcAt coin bid * keep / 10000 ↔
    coin * bid' * 9900 + routeRounding coin bid keep ≤
      coin * bid * keep + routeRounding coin bid' 9900 := by
  rw [mul_bid_keep coin bid', mul_bid_keep coin bid keep]
  omega

end Rounding

/-- The four bounds on numbers. -/
theorem bounds_iff {coin bid bid' cap slip : Nat} (hcoin : coin ≤ cap * 100000000 / bid)
    (hslip : slip ≤ 10000) (hmin : 0 < usdcAt coin bid * (10000 - slip) / 10000) :
    (usdcAt coin bid * (10000 - slip) / 10000 ≤ usdcAt coin bid' ∧ usdcAt coin bid' ≤ cap ∧
      usdcAt coin bid * (10000 - min slip 90) / 10000 ≤ usdcAt coin bid' ∧
      max (usdcAt coin bid' * 9900 / 10000) 1 ≤ usdcAt coin bid * (10000 - min slip 90) / 10000) ↔
    if bid' ≤ bid then coin * bid * (10000 - min slip 90) ≤
      coin * bid' * 10000 + routeRounding coin bid (10000 - min slip 90)
    else coin * bid' < (cap + 1) * 100000000 ∧
      coin * bid' * 9900 + routeRounding coin bid (10000 - min slip 90) ≤
        coin * bid * (10000 - min slip 90) + routeRounding coin bid' 9900 := by
  rw [← route_le_iff, ← usdcAt_le_iff, ← spend_le_iff]
  have hcap : usdcAt coin bid ≤ cap := by
    unfold usdcAt
    refine Nat.div_le_of_le_mul ?_
    rw [Nat.mul_comm 100000000]
    exact (Nat.mul_le_mul_right bid hcoin).trans (Nat.div_mul_le_self _ _)
  generalize hE : usdcAt coin bid = E at *
  -- the minimum is at most what the route spends, and that is at most what was expected
  have hroute : E * (10000 - slip) / 10000 ≤ E * (10000 - min slip 90) / 10000 :=
    Nat.div_le_div_right (Nat.mul_le_mul_left _ (by omega))
  have hle : E * (10000 - min slip 90) / 10000 ≤ E :=
    Nat.div_le_of_le_mul (by rw [Nat.mul_comm]; exact Nat.mul_le_mul_right _ (by omega))
  split_ifs with hlow
  · have hU : usdcAt coin bid' ≤ E := by
      rw [← hE]
      exact Nat.div_le_div_right (Nat.mul_le_mul_left _ hlow)
    have hspend : usdcAt coin bid' * 9900 / 10000 ≤ E * (10000 - min slip 90) / 10000 :=
      Nat.div_le_div_right (Nat.mul_le_mul hU (by omega))
    constructor
    · exact fun h => h.2.2.1
    · intro h
      exact ⟨hroute.trans h, hU.trans hcap, h, max_le hspend (by omega)⟩
  · have hU : E ≤ usdcAt coin bid' := by
      rw [← hE]
      exact Nat.div_le_div_right (Nat.mul_le_mul_left _ (by omega))
    constructor
    · exact fun h => ⟨h.2.1, (le_max_left _ _).trans h.2.2.2⟩
    · intro h
      exact ⟨by omega, h.1, hle.trans hU, max_le h.2 (by omega)⟩

/-! ### What the keeper plans -/

section Plan

variable {price : UInt64} {spread : UInt16} {coin bid : UInt64}

/-- A bid at a spread always exists. -/
theorem bid_eq_bidAt (price : UInt64) (spread : UInt16) :
    ∃ bid, PegDesk.bid price spread = some bid ∧ bid.toNat = bidAt price.toNat spread.toNat := by
  have hle : bidAt price.toNat spread.toNat ≤ price.toNat := by
    unfold bidAt
    exact Nat.div_le_of_le_mul (by rw [Nat.mul_comm]; exact Nat.mul_le_mul_right _ (by omega))
  have hbid : (UInt64.ofNat (bidAt price.toNat spread.toNat)).toNat =
      bidAt price.toNat spread.toNat := by
    rw [UInt64.toNat_ofNat', Nat.mod_eq_of_lt (hle.trans_lt price.toNat_lt)]
  refine ⟨_, PegDesk.bid_eq_some.mpr ?_, hbid⟩
  rw [hbid]
  exact (PegDesk.div_eq_iff_bounds (by decide)).mp rfl

/-- The desk's payment, where it fits. -/
theorem usdcOutForCoin_eq_usdcAt {usdc : UInt64} :
    PegDesk.usdcOutForCoin coin bid = some usdc ↔ usdc.toNat = usdcAt coin.toNat bid.toNat := by
  rw [PegDesk.usdcOutForCoin_eq_some]
  exact (PegDesk.div_eq_iff_bounds (by decide)).symm

/-- A haircut of a natural number. -/
theorem haircutBps_ok {x : Nat} {bps v : Int} (h : haircutBps x bps = .ok v) :
    0 ≤ bps ∧ bps.toNat ≤ 10000 ∧ v = (x * (10000 - bps.toNat) / 10000 : Nat) := by
  unfold haircutBps at h
  split_ifs at h with hbad
  · cases h
  · have hrange : 0 ≤ bps ∧ bps ≤ 10000 := by omega
    refine ⟨hrange.1, by omega, ?_⟩
    obtain rfl := Except.ok.inj h
    have hkeep : (10000 : Int) - bps = ((10000 - bps.toNat : Nat) : Int) := by omega
    rw [hkeep, ← Int.natCast_mul]
    exact (Int.ofNat_tdiv _ 10000).symm

/-- What a planned cycle's numbers are. -/
structure PlanOf (st : BuybackState) (vault base slippageBps : Nat) (p : PlannedCycle) : Prop where
  coinAmount : p.coinAmount = coinFor st vault base
  minUsdcOut : p.minUsdcOut =
    (usdcAt (coinFor st vault base) base * (10000 - slippageBps) / 10000 : Nat)
  routeUsdcIn : p.routeUsdcIn =
    (usdcAt (coinFor st vault base) base * (10000 - min slippageBps 90) / 10000 : Nat)
  coin_pos : 0 < coinFor st vault base
  min_pos : 0 < usdcAt (coinFor st vault base) base * (10000 - slippageBps) / 10000
  slippage : slippageBps ≤ 10000

/-- The COIN of a cycle fits where the vault does. -/
theorem coinFor_le (st : BuybackState) (vault bid : Nat) : coinFor st vault bid ≤ vault := by
  unfold coinFor
  refine (Nat.min_le_left _ _).trans (Nat.div_le_of_le_mul ?_)
  rw [Nat.mul_comm]
  exact Nat.mul_le_mul_right _ (by omega)

/-- The keeper's size, where it is positive. -/
theorem coinFor_of_pos {st : BuybackState} {vault bid : Nat} {coin : Int} (hpos : 0 < coin)
    (h : (if ((st.maxPerCycleUsdc.toNat : Int) * 100000000).tdiv bid <
        ((vault : Int) * (10000 - st.reserveBufferBps.toNat)).tdiv 10000
      then ((st.maxPerCycleUsdc.toNat : Int) * 100000000).tdiv bid
      else ((vault : Int) * (10000 - st.reserveBufferBps.toNat)).tdiv 10000) = coin) :
    coin = coinFor st vault bid := by
  have hmax : ((st.maxPerCycleUsdc.toNat : Int) * 100000000).tdiv bid =
      (st.maxPerCycleUsdc.toNat * 100000000 / bid : Nat) := by
    exact (Int.ofNat_tdiv _ _).symm
  rw [hmax] at h
  have hbuffer : st.reserveBufferBps.toNat < 10000 := by
    by_contra hge
    have hneg : (vault : Int) * (10000 - st.reserveBufferBps.toNat) ≤ 0 :=
      mul_nonpos_of_nonneg_of_nonpos (by omega) (by omega)
    have hdiv := Int.tdiv_nonneg (neg_nonneg.mpr hneg) (by omega : (0 : Int) ≤ 10000)
    rw [Int.neg_tdiv] at hdiv
    split_ifs at h <;> omega
  have husable : ((vault : Int) * (10000 - st.reserveBufferBps.toNat)).tdiv 10000 =
      (vault * (10000 - st.reserveBufferBps.toNat) / 10000 : Nat) := by
    have hkeep : (10000 : Int) - st.reserveBufferBps.toNat =
        ((10000 - st.reserveBufferBps.toNat : Nat) : Int) := by
      omega
    rw [hkeep, ← Int.natCast_mul]
    exact (Int.ofNat_tdiv _ 10000).symm
  rw [husable] at h
  unfold coinFor
  split_ifs at h <;> omega

/-- Invert a cycle that is sent. -/
theorem runBuybackCycle_ok {st : BuybackState} {now slippageBps : Int} {best : PickedVault}
    {route : Int → Option Int} {p : PlannedCycle} {vault : UInt64} {d : PegDesk.Desk}
    {op : PegDesk.OraclePrice} (hview : best.view = fetchCommodityView d)
    (hreading : best.reading = .ofPrice op) (hvault : best.vault = vault.toNat)
    (h : runBuybackCycle st now slippageBps best route = .ok (some p)) :
    PlanOf st vault.toNat
      (bidAt op.price.toNat d.commodity.baseSpreadBps.toNat) slippageBps.toNat p := by
  obtain ⟨bid, hbid, hbidAt⟩ := bid_eq_bidAt op.price d.commodity.baseSpreadBps
  have hprice : bidPrice best.reading.price best.view.baseSpreadBps = .ok (bid.toNat : Int) := by
    rw [hview, hreading]
    exact (hbid ▸ bidPrice_agrees op.price d.commodity.baseSpreadBps).eq_ok
  unfold runBuybackCycle at h
  rw [hprice, hvault] at h
  simp only [ok_bind] at h
  generalize hcoin : (if ((st.maxPerCycleUsdc.toNat : Int) * 100000000).tdiv bid.toNat <
      ((vault.toNat : Int) * (10000 - st.reserveBufferBps.toNat)).tdiv 10000
    then ((st.maxPerCycleUsdc.toNat : Int) * 100000000).tdiv bid.toNat
    else ((vault.toNat : Int) * (10000 - st.reserveBufferBps.toNat)).tdiv 10000) = coin at h
  by_cases hskip : st.paused = true ∨ now - st.lastCycleTs < st.minIntervalSecs.toNat ∨
      best.isComposite = true ∨ st.maxPerCycleUsdc = 0 ∨ st.icePerUsdcAnchor = 0
  · rcases hskip with hs | hs | hs | hs | hs <;> simp [hs] at h
  push Not at hskip
  obtain ⟨h1, h2, h3, h4, h5⟩ := hskip
  rw [if_neg (by simpa using h1), if_neg (by omega), if_neg (by simpa using h3), if_neg h4,
    if_neg h5] at h
  by_cases hzero : (bid.toNat : Int) = 0
  · rw [if_pos hzero] at h
    cases h
  rw [if_neg hzero] at h
  by_cases hnone : coin = 0
  · rw [if_pos hnone] at h
    cases h
  rw [if_neg hnone] at h
  obtain ⟨expected, hexpected, h⟩ := bind_eq_ok.mp h
  obtain ⟨minUsdcOut, hmin, h⟩ := bind_eq_ok.mp h
  by_cases hminZero : minUsdcOut = 0
  · rw [if_pos hminZero] at h
    cases h
  rw [if_neg hminZero] at h
  obtain ⟨routeUsdcIn, hroute, h⟩ := bind_eq_ok.mp h
  -- a negative amount is refused, so the sizes are those of naturals
  have hcoinNat : coin = coinFor st vault.toNat bid.toNat := by
    have hnonneg : 0 ≤ coin := by
      by_contra hneg
      unfold usdcOutForCoinIn at hexpected
      rw [if_pos (by omega)] at hexpected
      cases hexpected
    exact coinFor_of_pos (by omega) hcoin
  have hcoinU : (UInt64.ofNat (coinFor st vault.toNat bid.toNat)).toNat =
      coinFor st vault.toNat bid.toNat := by
    rw [UInt64.toNat_ofNat', Nat.mod_eq_of_lt ((coinFor_le _ _ _).trans_lt vault.toNat_lt)]
  have hexpectedNat : expected = usdcAt (coinFor st vault.toNat bid.toNat) bid.toNat := by
    have hagrees := usdcOutForCoinIn_agrees (.ofNat (coinFor st vault.toNat bid.toNat)) bid
    rw [hcoinU, ← hcoinNat, hexpected] at hagrees
    unfold Agrees at hagrees
    obtain ⟨usdc, husdc, heq⟩ := Option.map_eq_some_iff.mp hagrees.symm
    rw [usdcOutForCoin_eq_usdcAt, hcoinU] at husdc
    rw [← husdc]
    exact heq.symm
  rw [hexpectedNat] at hmin hroute
  obtain ⟨hslip, hslip', hminNat⟩ := haircutBps_ok hmin
  obtain ⟨-, -, hrouteNat⟩ := haircutBps_ok hroute
  have hmin90 : (min slippageBps 90).toNat = min slippageBps.toNat 90 := by omega
  rw [hmin90] at hrouteNat
  split at h
  · cases h
  · obtain ⟨minIceOut, -, h⟩ := bind_eq_ok.mp h
    split_ifs at h with hice
    · cases h
    · cases h
      rw [← hbidAt]
      exact ⟨hcoinNat, hminNat, hrouteNat, by omega, by omega, hslip'⟩

end Plan

/-! ### What the programs do -/

section Execution

variable {env : PegDesk.Env} {d : PegDesk.Desk} {x : PegDesk.TradeInput} {q : PegDesk.Quote}
  {s : BuybackState} {p : PlannedCycle}

theorem raisesOnly_liftToken {ε α : Type} {es : List ε} (y : Except TokenError α) :
    RaisesOnly es (liftToken y : Result ε α) := by
  intro e h
  obtain ⟨_, -, h⟩ := liftToken_eq_error.mp h
  cases h

/-- A sell whose amounts are known fails only by its caps and its reserve. -/
theorem executeSell_raises (coinIn usdcOut : UInt64) :
    RaisesOnly [.perTxCapExceeded, .reserveInsufficient, .dailyRedeemCapExceeded]
      (PegDesk.executeSell d x q coinIn usdcOut) := by
  unfold PegDesk.executeSell
  refine .bind (.require (by simp)) fun _ => .bind (.require (by simp)) fun _ => ?_
  refine .bind (.okOr (by simp)) fun _ => .bind (raisesOnly_liftToken _) fun _ => ?_
  exact .bind (raisesOnly_liftToken _) fun _ => .ok _

/-- A sell that yields its minimum is not refused for slippage. -/
theorem handleSell_ne_slippage {coin minUsdcOut bid sold : UInt64}
    (hq : PegDesk.quote env d x false = .ok q)
    (hbid : PegDesk.bid q.price q.spreadBps = some bid)
    (hsold : PegDesk.usdcOutForCoin coin bid = some sold) (hmin : minUsdcOut ≤ sold) :
    PegDesk.handleSell env d x coin minUsdcOut ≠ .error (.custom .slippageExceeded) := by
  intro h
  unfold PegDesk.handleSell at h
  obtain ⟨-, -, h⟩ := (PegDesk.checkTradeAccounts_raises.bind_eq_error (by simp)).mp h
  obtain ⟨-, h⟩ := (require_bind_eq_error (by simp)).mp h
  rw [hq, ok_bind, hbid] at h
  obtain ⟨bid', hbid', h⟩ := (okOr_bind_eq_error (by simp)).mp h
  obtain rfl := Option.some.inj hbid'
  rw [hsold] at h
  obtain ⟨sold', hsold', h⟩ := (okOr_bind_eq_error (by simp)).mp h
  obtain rfl := Option.some.inj hsold'
  obtain ⟨-, h⟩ := (require_bind_eq_error (by simp)).mp h
  rw [require_of hmin, ok_bind] at h
  have hraised := executeSell_raises coin sold _ h
  simp at hraised

/-- A cycle within its bounds is not refused for them. -/
theorem handleConvertAndBurn_ne {cpis : Cpis} {auth : Pubkey} {ci : CycleInput} {coin sold : UInt64}
    (hcoin : min ci.coinAmount (usableBalance s ci.buybackVault) = coin)
    (hminUsdcOut : (ci.minUsdcOut.toNat : Int) = p.minUsdcOut)
    (hbounds : WithinBounds s p sold) (hsold : 0 < sold.toNat) (h : Performs cpis ci p coin sold) :
    ∀ e ∈ [BuybackError.sellBelowMinimum, .cycleCapExceeded, .usdcUnderspent],
      handleConvertAndBurn cpis auth s ci ≠ .error (.custom e) := by
  intro e he herror
  have hne : ∀ e', e' ∉ [BuybackError.sellBelowMinimum, .cycleCapExceeded, .usdcUnderspent] →
      ProgramError.custom e' ≠ .custom e := by
    intro e' he' heq
    cases heq
    exact he' he
  obtain ⟨w₁, w₂, w₃, hwithdraw, husdc₁, hsell, husdc₂, hroute, husdc₃⟩ := h.moves
  obtain ⟨hmin, hcap, henough, hspend⟩ := hbounds
  have hproceeds : saturatingSub w₂.usdc.amount ci.work.usdc.amount = sold := by
    rw [← UInt64.toNat_inj, saturatingSub_toNat, ← husdc₁]
    omega
  have hspent : ((saturatingSub w₂.usdc.amount w₃.usdc.amount).toNat : Int) = p.routeUsdcIn := by
    rw [saturatingSub_toNat]
    omega
  unfold handleConvertAndBurn at herror
  obtain ⟨-, herror⟩ := (require_bind_eq_error (hne _ (by simp))).mp herror
  obtain ⟨-, herror⟩ := (require_bind_eq_error (hne _ (by simp))).mp herror
  obtain ⟨-, herror⟩ := (require_bind_eq_error (hne _ (by simp))).mp herror
  obtain ⟨-, herror⟩ := (require_bind_eq_error (hne _ (by simp))).mp herror
  obtain ⟨-, herror⟩ := (require_bind_eq_error (hne _ (by simp))).mp herror
  obtain ⟨-, herror⟩ := (require_bind_eq_error (hne _ (by simp))).mp herror
  dsimp only at herror
  rw [hcoin] at herror
  obtain ⟨-, herror⟩ := (require_bind_eq_error (hne _ (by simp))).mp herror
  rw [hwithdraw, ok_bind] at herror
  obtain ⟨-, herror⟩ := (require_bind_eq_error (hne _ (by simp))).mp herror
  rw [hsell, ok_bind, hproceeds] at herror
  -- the checks on the sale's proceeds
  rw [require_of ⟨UInt64.lt_iff_toNat_lt.mpr hsold, UInt64.le_iff_toNat_le.mpr (by omega)⟩, ok_bind,
    require_of (fun _ => UInt64.le_iff_toNat_le.mpr hcap), ok_bind, hroute, ok_bind] at herror
  -- the checks on what the route spent
  rw [require_of (UInt64.le_iff_toNat_le.mpr (by omega)), ok_bind] at herror
  obtain ⟨-, herror⟩ := (require_bind_eq_error (hne _ (by simp))).mp herror
  rw [require_of (UInt64.le_iff_toNat_le.mpr (by omega)), ok_bind] at herror
  obtain ⟨-, herror⟩ := (require_bind_eq_error (hne _ (by simp))).mp herror
  obtain ⟨-, herror⟩ := (require_bind_eq_error (hne _ (by simp))).mp herror
  obtain ⟨_, -, herror⟩ := (okOr_bind_eq_error (hne _ (by simp))).mp herror
  obtain ⟨-, herror⟩ := (require_bind_eq_error (hne _ (by simp))).mp herror
  obtain ⟨-, herror⟩ := (require_bind_eq_error (hne _ (by simp))).mp herror
  obtain ⟨_, -, herror⟩ := liftToken_bind_eq_error.mp herror
  obtain ⟨_, -, herror⟩ := (okOr_bind_eq_error (hne _ (by simp))).mp herror
  obtain ⟨_, -, herror⟩ := (okOr_bind_eq_error (hne _ (by simp))).mp herror
  cases herror

end Execution

/-! ### The keeper's sizing and the programs' checks -/

section Main

variable {env : PegDesk.Env} {d : PegDesk.Desk} {x : PegDesk.TradeInput} {q : PegDesk.Quote}
  {op : PegDesk.OraclePrice} {s : BuybackState} {vault : UInt64} {now slippageBps : Int}
  {best : PickedVault} {route : Int → Option Int} {p : PlannedCycle}

/-- The Peg Desk's spread for a reading. -/
def spreadFor (d : PegDesk.Desk) (now : Int) (op : PegDesk.OraclePrice) : UInt16 :=
  PegDesk.effectiveSpreadBps d.commodity.baseSpreadBps d.commodity.closedSpreadBps
    d.commodity.confMultBps op.conf op.price (PegDesk.ageSecs now op.publishTime) d.commodity.maxAge
    d.commodity.status (PegDesk.reserveRatioBps d.reserveVault.amount d.coinMint.supply op.price)
    d.config.reserveWarnBps

/-- The bounds as inequalities of numbers. -/
theorem withinBounds_iff {coin bid : Nat} {slip : Nat} {sold : UInt64}
    (hsold : sold.toNat = usdcAt coin bid)
    {base : Nat} (hmin : p.minUsdcOut = (usdcAt coin base * (10000 - slip) / 10000 : Nat))
    (hroute : p.routeUsdcIn = (usdcAt coin base * (10000 - min slip 90) / 10000 : Nat)) :
    WithinBounds s p sold ↔
      usdcAt coin base * (10000 - slip) / 10000 ≤ usdcAt coin bid ∧
      usdcAt coin bid ≤ s.maxPerCycleUsdc.toNat ∧
      usdcAt coin base * (10000 - min slip 90) / 10000 ≤ usdcAt coin bid ∧
      max (usdcAt coin bid * 9900 / 10000) 1 ≤
        usdcAt coin base * (10000 - min slip 90) / 10000 := by
  have hspend : (max (minSpend sold) 1).toNat = max (usdcAt coin bid * 9900 / 10000) 1 := by
    rw [toNat_max, minSpend_toNat, hsold]
    rfl
  constructor
  · intro h
    obtain ⟨h1, h2, h3, h4⟩ := h
    rw [hmin, hsold] at h1
    rw [hsold] at h2
    rw [hroute, hsold] at h3
    rw [hspend, hroute] at h4
    exact ⟨by omega, h2, by omega, by omega⟩
  · intro h
    obtain ⟨h1, h2, h3, h4⟩ := h
    refine ⟨?_, ?_, ?_, ?_⟩
    · rw [hmin, hsold]
      omega
    · rw [hsold]
      exact h2
    · rw [hroute, hsold]
      omega
    · rw [hspend, hroute]
      omega

/-- A number up to a `u64` is one. -/
theorem exists_toNat_eq {n : Nat} {w : UInt64} (h : n ≤ w.toNat) : ∃ v : UInt64, v.toNat = n :=
  ⟨.ofNat n, by rw [UInt64.toNat_ofNat', Nat.mod_eq_of_lt (h.trans_lt w.toNat_lt)]⟩

/-- A cycle the keeper sends passes the programs' checks on its bounds exactly when its slippage
makes up for the spread the keeper left out. -/
theorem sizing_passes_iff
    (hreading : PegDesk.readPrice env d.commodity d.commodityKey x.oracle x.now = .ok op)
    (hquote : PegDesk.quote env d x false = .ok q) (hview : best.view = fetchCommodityView d)
    (hread : best.reading = .ofPrice op) (hvault : best.vault = vault.toNat)
    (hplan : runBuybackCycle s now slippageBps best route = .ok (some p)) :
    CyclePasses env d x q s vault p ↔
      SpreadTolerated s vault.toNat op.price.toNat d.commodity.baseSpreadBps.toNat
        (spreadFor d x.now op).toNat slippageBps.toNat := by
  have plan := runBuybackCycle_ok hview hread hvault hplan
  obtain ⟨hprice, hspread⟩ := PegDesk.quote_spreadBps hquote hreading
  have hspread : q.spreadBps = spreadFor d x.now op := hspread
  obtain ⟨bid, hbid, hbidAt⟩ := bid_eq_bidAt q.price q.spreadBps
  rw [hprice, hspread] at hbidAt
  unfold SpreadTolerated
  dsimp only
  generalize bidAt op.price.toNat d.commodity.baseSpreadBps.toNat = base at plan ⊢
  generalize bidAt op.price.toNat (spreadFor d x.now op).toNat = bidNow at hbidAt ⊢
  -- the COIN amount as the programs see it
  have hcoin : (UInt64.ofNat p.coinAmount.toNat).toNat = coinFor s vault.toNat base := by
    rw [plan.coinAmount, Int.toNat_natCast, UInt64.toNat_ofNat',
      Nat.mod_eq_of_lt ((coinFor_le _ _ _).trans_lt vault.toNat_lt)]
  have hsoldAt : ∀ sold, PegDesk.usdcOutForCoin (.ofNat p.coinAmount.toNat) bid = some sold ↔
      sold.toNat = usdcAt (coinFor s vault.toNat base) bidNow := by
    intro sold
    rw [usdcOutForCoin_eq_usdcAt, hcoin, hbidAt]
  have hcapped : coinFor s vault.toNat base ≤ s.maxPerCycleUsdc.toNat * 100000000 / base :=
    Nat.min_le_right _ _
  have hnumbers := @bounds_iff _ _ bidNow _ _ hcapped plan.slippage plan.min_pos
  constructor
  · intro hx
    obtain ⟨⟨bid', sold, hbid', hsold, hbounds⟩, -, -⟩ := hx
    obtain rfl := Option.some.inj (hbid.symm.trans hbid')
    exact hnumbers.mp ((withinBounds_iff
      ((hsoldAt sold).mp hsold) plan.minUsdcOut plan.routeUsdcIn).mp
      hbounds)
  · intro h
    have hall := hnumbers.mpr h
    obtain ⟨sold, hsold⟩ := exists_toNat_eq hall.2.1
    have hbounds := (withinBounds_iff hsold plan.minUsdcOut plan.routeUsdcIn).mpr hall
    have hsome := (hsoldAt sold).mpr hsold
    have hmin : ((UInt64.ofNat p.minUsdcOut.toNat).toNat : Int) = p.minUsdcOut := by
      have hlt := sold.toNat_lt
      rw [plan.minUsdcOut, Int.toNat_natCast, UInt64.toNat_ofNat', Nat.mod_eq_of_lt (by omega)]
    have hle := hbounds.min
    refine ⟨⟨bid, sold, hbid, hsome, hbounds⟩, ?_, ?_⟩
    · exact handleSell_ne_slippage hquote hbid hsome (UInt64.le_iff_toNat_le.mpr (by omega))
    · intro cpis auth ci bid' sold' hbid' hsold' hciCoin hciMin hciVault hperforms
      obtain rfl := Option.some.inj (hbid.symm.trans hbid')
      obtain rfl := Option.some.inj (hsome.symm.trans hsold')
      have hpos := plan.min_pos
      refine handleConvertAndBurn_ne ?_ (by rw [hciMin, hmin]) hbounds (by omega) hperforms
      -- the keeper took no more than the program lets it
      rw [hciCoin, hciVault, ← UInt64.toNat_inj, toNat_min, hcoin]
      unfold usableBalance
      rw [ofNat_bps_toNat vault (Nat.sub_le _ _)]
      exact Nat.min_eq_left (Nat.min_le_left _ _)

end Main

/-! ### A sample -/

namespace Sample

/-- A commodity at 100 USDC with a base spread of 50 and a closed spread of 150. -/
def desk (status : UInt8) : PegDesk.Desk :=
  PegDesk.Sample.desk { PegDesk.Sample.commodity with status } 200000000000 1000000000

def input : PegDesk.TradeInput := PegDesk.Sample.input 10000 10000000000

def reading : PegDesk.OraclePrice := { price := 10000000000, conf := 0, publishTime := 10000 }

def quoted (spreadBps : UInt16) : PegDesk.Quote :=
  { price := 10000000000, publishTime := 10000, spreadBps, now := 10000 }

def state : BuybackState where
  admin := Bytes32.fill 3
  keepers := Vector.replicate Buyback.maxKeepers Pubkey.default
  keeperCount := 0
  reserveBufferBps := 1000
  maxPerCycleUsdc := 10000000000
  minIntervalSecs := 3600
  lastCycleTs := 0
  icePerUsdcAnchor := 1000000
  maxDeviationBps := 500
  anchorMoveBps := 100
  paused := false
  totalUsdcOut := 0
  totalIceBurned := 0

/-- A vault of 10 COIN. -/
def picked (status : UInt8) : PickedVault where
  isComposite := false
  view := fetchCommodityView (desk status)
  reading := .ofPrice reading
  vault := 10000000

/-- A route that buys one ICE for one USDC. -/
def route (usdcIn : Int) : Option Int := some usdcIn

/-- What the keeper sends at a slippage of 50 bps, open or closed. -/
def sized : PlannedCycle where
  coinAmount := 9000000
  minUsdcOut := 891022500
  minIceOut := 886567387
  routeUsdcIn := 891022500

end Sample

/-- In a closed market the desk pays its closed spread, and less than the planned minimum. -/
theorem closed_market_fails :
    PegDesk.readPrice PegDesk.Sample.env (Sample.desk PegDesk.statusClosed).commodity
        (Sample.desk PegDesk.statusClosed).commodityKey Sample.input.oracle Sample.input.now =
      .ok Sample.reading ∧
    PegDesk.quote PegDesk.Sample.env (Sample.desk PegDesk.statusClosed) Sample.input false =
      .ok (Sample.quoted 150) ∧
    runBuybackCycle Sample.state 10000 50 (Sample.picked PegDesk.statusClosed) Sample.route =
      .ok (some Sample.sized) ∧
    ¬ CyclePasses PegDesk.Sample.env (Sample.desk PegDesk.statusClosed) Sample.input
      (Sample.quoted 150)
      Sample.state 10000000 Sample.sized := by
  refine ⟨by decide +kernel, by decide +kernel, by decide +kernel, ?_⟩
  intro h
  obtain ⟨⟨bid, sold, hbid, hsold, hbounds⟩, -, -⟩ := h
  have hbid' : PegDesk.bid (Sample.quoted 150).price (Sample.quoted 150).spreadBps =
      some 9850000000 := by
    decide +kernel
  obtain rfl := Option.some.inj (hbid'.symm.trans hbid)
  have hsold' : PegDesk.usdcOutForCoin (.ofNat Sample.sized.coinAmount.toNat) 9850000000 =
      some 886500000 := by
    decide +kernel
  obtain rfl := Option.some.inj (hsold'.symm.trans hsold)
  have hmin := hbounds.min
  revert hmin
  decide

/-- In an open market it pays what the keeper expected. -/
theorem sizing_passes_iff_sample :
    CyclePasses PegDesk.Sample.env (Sample.desk PegDesk.statusOpen) Sample.input (Sample.quoted 50)
      Sample.state 10000000 Sample.sized := by
  have hplan : runBuybackCycle Sample.state 10000 50
    (Sample.picked PegDesk.statusOpen) Sample.route =
      .ok (some Sample.sized) := by decide +kernel
  have hreading : PegDesk.readPrice PegDesk.Sample.env (Sample.desk PegDesk.statusOpen).commodity
      (Sample.desk PegDesk.statusOpen).commodityKey Sample.input.oracle Sample.input.now =
      .ok Sample.reading := by decide +kernel
  exact (sizing_passes_iff hreading (by decide +kernel) rfl rfl rfl hplan).mpr (by decide +kernel)

end IceMarkets.Keeper
