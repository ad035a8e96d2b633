import IceMarkets.PegDesk.Spread

/-!
# IceMarkets.Sdk.Pricing

The SDK's port of the pricing math (`pricing.ts`), on bigints, and its agreement with
`pricing.rs`: where Rust returns `None` the port throws, and the ratio that Rust
reports as `u64::MAX` when there is no liability is the port's `null`.

A bigint is an `Int`; its `/` and `%` truncate toward zero. `Agrees` is the relation
between a result of the port and one of the program.
-/

namespace IceMarkets.Sdk.Pricing

/-! ### Definitions -/

/-- The message of a `PricingError`. -/
structure PricingError where
  message : String
  deriving DecidableEq, Repr

/-- What the port's functions return, or throw. -/
abbrev Priced (α : Type) := Except PricingError α

def throwPricing {α : Type} (message : String) : Priced α := .error { message }

/-- `PRICE_SCALE`. -/
def priceScale : Int := 10 ^ 8

/-- `BPS_DENOM`. -/
def bpsDenom : Int := 10000

/-- `MAX_SPREAD_BPS`. -/
def maxSpreadBps : Int := 5000

/-- `U64_MAX`. -/
def u64Max : Int := 2 ^ 64 - 1

/-- `COIN_DECIMALS`. -/
def coinDecimals : Int := 6

/-- `USDC_DECIMALS`. -/
def usdcDecimals : Int := 6

/-- `Status.Open` and `Status.Closed`. -/
def statusOpen : Int := 0
def statusClosed : Int := 1

/-- `QuoteScale`. -/
def quoteUsd : Int := 0
def quoteUsCents : Int := 1
def quoteEur : Int := 2

structure CommodityPricingParams where
  baseSpreadBps : Int
  closedSpreadBps : Int
  confMultBps : Int
  coinDecimals : Int
  usdcDecimals : Int
  reserveWarnBps : Int
  reserveHaltBps : Int
  deriving DecidableEq, Repr

def pow10 (n : Int) : Priced Int :=
  if n < 0 then throwPricing ("pow10: bad exponent " ++ toString n) else .ok (10 ^ n.toNat)

def toU64 (v : Int) (what : String) : Priced Int :=
  if v < 0 ∨ u64Max < v then throwPricing (what ++ ": result does not fit in u64") else .ok v

def ceilDiv (n d : Int) : Priced Int :=
  if d = 0 then throwPricing "ceilDiv: division by zero"
  else .ok (n.tdiv d + if n.tmod d = 0 then 0 else 1)

/-- (numerator, denominator) such that USDC_UNIT / COIN_UNIT == num / den. -/
def decRatio (coinDecimals usdcDecimals : Int) : Priced (Int × Int) :=
  if coinDecimals ≤ usdcDecimals then do
    .ok (← pow10 (usdcDecimals - coinDecimals), 1)
  else do
    .ok (1, ← pow10 (coinDecimals - usdcDecimals))

/-- The age term of the spread. -/
def agePenaltyBps (age maxAge baseSpreadBps : Int) : Priced Int :=
  let half := maxAge.tdiv 2
  if ¬ (half < age ∧ half < maxAge) then .ok 0
  else
    let overage := (if age < maxAge then age else maxAge) - half
    let window := maxAge - half
    ceilDiv (baseSpreadBps * overage) window

/-- The confidence term of the spread. -/
def confSpreadBps (conf price confMultBps : Int) : Priced Int :=
  if price ≤ 0 then .ok maxSpreadBps else ceilDiv (confMultBps * conf * 100) price

def confBps (conf price : Int) : Priced Int :=
  if price ≤ 0 then throwPricing "confBps: price must be > 0"
  else do toU64 (← ceilDiv (conf * bpsDenom) price) "confBps"

/-- The argument of `effectiveSpreadBps`. -/
structure SpreadArgs where
  base : Int
  closed : Int
  confMult : Int
  conf : Int
  price : Int
  age : Int
  maxAge : Int
  status : Int
  reserveRatioBps : Option Int
  warnBps : Int
  deriving DecidableEq, Repr

/-- `if (reserveRatioBps !== null && reserveRatioBps < warnBps) s *= 2n`. -/
def widen (reserveRatioBps : Option Int) (warnBps s : Int) : Int :=
  match reserveRatioBps with
  | some r => if r < warnBps then s * 2 else s
  | none => s

def effectiveSpreadBps (a : SpreadArgs) : Priced Int :=
  if a.price = 0 then .ok maxSpreadBps
  else do
    let s := if a.status = statusClosed then a.closed else a.base
    let s := s + (← confSpreadBps a.conf a.price a.confMult)
    let s := s + (← agePenaltyBps a.age a.maxAge a.base)
    let s := widen a.reserveRatioBps a.warnBps s
    .ok (if s < maxSpreadBps then s else maxSpreadBps)

/-- `SpreadInputs`; an outer `none` is `undefined`. -/
structure SpreadInputs where
  status : Int
  conf : Int
  price : Int
  ageSec : Int
  maxAgeSec : Int
  params : CommodityPricingParams
  reserveRatioBps : Option (Option Int)
  reserveWarn : Bool
  deriving DecidableEq, Repr

def spreadBps (inputs : SpreadInputs) : Priced Int :=
  let ratio := match inputs.reserveRatioBps with
    | some ratio => ratio
    | none => if inputs.reserveWarn then some 0 else none
  effectiveSpreadBps {
    base := inputs.params.baseSpreadBps, closed := inputs.params.closedSpreadBps
    confMult := inputs.params.confMultBps, conf := inputs.conf, price := inputs.price
    age := inputs.ageSec, maxAge := inputs.maxAgeSec, status := inputs.status
    reserveRatioBps := ratio, warnBps := inputs.params.reserveWarnBps }

def askPrice (price spread : Int) : Priced Int := do
  toU64 (← ceilDiv (price * (bpsDenom + spread)) bpsDenom) "askPrice"

def bidPrice (price spread : Int) : Priced Int :=
  let keep := if spread < bpsDenom then bpsDenom - spread else 0
  toU64 ((price * keep).tdiv bpsDenom) "bidPrice"

def coinOutForUsdcIn (usdcIn ask coinDecimals usdcDecimals : Int) : Priced Int :=
  if ask ≤ 0 then throwPricing "coinOutForUsdcIn: ask must be > 0"
  else if usdcIn < 0 then throwPricing "coinOutForUsdcIn: usdcIn must be >= 0"
  else do
    let (num, den) ← decRatio coinDecimals usdcDecimals
    toU64 ((usdcIn * priceScale * den).tdiv (ask * num)) "coinOutForUsdcIn"

def usdcOutForCoinIn (coinIn bid coinDecimals usdcDecimals : Int) : Priced Int :=
  if coinIn < 0 then throwPricing "usdcOutForCoinIn: coinIn must be >= 0"
  else if bid < 0 then throwPricing "usdcOutForCoinIn: bid must be >= 0"
  else do
    let (num, den) ← decRatio coinDecimals usdcDecimals
    toU64 ((coinIn * bid * num).tdiv (priceScale * den)) "usdcOutForCoinIn"

def maxUsdcInForCoinOut (coinOut ask coinDecimals usdcDecimals : Int) : Priced Int :=
  if ask < 0 then throwPricing "maxUsdcInForCoinOut: ask must be >= 0"
  else if coinOut < 0 then throwPricing "maxUsdcInForCoinOut: coinOut must be >= 0"
  else do
    let (num, den) ← decRatio coinDecimals usdcDecimals
    toU64 (← ceilDiv (coinOut * ask * num) (priceScale * den)) "maxUsdcInForCoinOut"

/-- `null` when there is no liability. -/
def reserveRatioBps (reserveBalance supply price coinDecimals usdcDecimals : Int) :
    Priced (Option Int) :=
  if supply = 0 ∨ price = 0 then .ok none
  else do
    let (num, den) ← decRatio coinDecimals usdcDecimals
    let r := (reserveBalance * bpsDenom * priceScale * den).tdiv (supply * price * num)
    .ok (some (if u64Max < r then u64Max else r))

def normalizeTo1e8 (value expo : Int) : Priced Int :=
  let shift := expo + 8
  if shift < -30 ∨ 30 < shift then throwPricing ("normalizeTo1e8: bad expo " ++ toString expo)
  else if 0 ≤ shift then do toU64 (value * (← pow10 shift)) "normalizeTo1e8"
  else do .ok (value.tdiv (← pow10 (-shift)))

def scaleQuote (rawPrice rawExpo quoteScale fxPrice fxExpo : Int) : Priced Int := do
  let p ← normalizeTo1e8 rawPrice rawExpo
  if quoteScale = quoteUsd then .ok p
  else if quoteScale = quoteUsCents then .ok (p.tdiv 100)
  else if quoteScale = quoteEur then do
    let fx ← normalizeTo1e8 fxPrice fxExpo
    if fx = 0 then throwPricing "scaleQuote: fx price is zero"
    else toU64 ((p * fx).tdiv priceScale) "scaleQuote"
  else throwPricing ("scaleQuote: unknown quote_scale " ++ toString quoteScale)

def weightedSum (legs : List (Int × Int)) : Priced Int :=
  let (wsum, acc) := legs.foldl (fun (wsum, acc) (v, w) => (wsum + w, acc + v * w)) (0, 0)
  if wsum ≠ bpsDenom then throwPricing "weightedSum: weights must sum to 10_000"
  else toU64 (acc.tdiv bpsDenom) "weightedSum"

structure QuoteBuyResult where
  spreadBps : Int
  ask : Int
  coinOut : Int
  deriving DecidableEq, Repr

structure QuoteSellResult where
  spreadBps : Int
  bid : Int
  usdcOut : Int
  deriving DecidableEq, Repr

structure QuoteBuyExactOutResult where
  spreadBps : Int
  ask : Int
  maxUsdcIn : Int
  deriving DecidableEq, Repr

/-- usdc_in to (spread, ask, coin_out). -/
def quoteBuy (usdcIn : Int) (spread : SpreadInputs) : Priced QuoteBuyResult := do
  let s ← spreadBps spread
  let ask ← askPrice spread.price s
  let coinOut ← coinOutForUsdcIn usdcIn ask spread.params.coinDecimals spread.params.usdcDecimals
  .ok { spreadBps := s, ask, coinOut }

/-- coin_out to (spread, ask, max_usdc_in). -/
def quoteBuyExactOut (coinOut : Int) (spread : SpreadInputs) : Priced QuoteBuyExactOutResult := do
  let s ← spreadBps spread
  let ask ← askPrice spread.price s
  let maxUsdcIn ←
    maxUsdcInForCoinOut coinOut ask spread.params.coinDecimals spread.params.usdcDecimals
  .ok { spreadBps := s, ask, maxUsdcIn }

/-- coin_in to (spread, bid, usdc_out). -/
def quoteSell (coinIn : Int) (spread : SpreadInputs) : Priced QuoteSellResult := do
  let s ← spreadBps spread
  let bid ← bidPrice spread.price s
  let usdcOut ← usdcOutForCoinIn coinIn bid spread.params.coinDecimals spread.params.usdcDecimals
  .ok { spreadBps := s, bid, usdcOut }

/-! ### Agreement -/

/-- The port returns the program's value, and throws where it returns `None`. -/
def Agrees (ts : Priced Int) (rs : Option UInt64) : Prop :=
  ts.toOption = rs.map fun v => (v.toNat : Int)

theorem agrees_toU64 (v : Nat) (what : String) : Agrees (toU64 v what) (IceMarkets.toU64 v) := by
  unfold Agrees toU64
  by_cases h : v < 2 ^ 64
  · obtain ⟨x, hx⟩ := exists_toU64 h
    have hv := toU64_eq_some.mp hx
    rw [if_neg (by unfold u64Max; omega), hx]
    simp [Except.toOption, hv]
  · rw [if_pos (by unfold u64Max; omega), toU64_eq_none.mpr (by omega)]
    rfl

/-- Bigint ceiling division of naturals. -/
theorem ceilDiv_natCast (n : Nat) {d : Nat} (hd : d ≠ 0) :
    ceilDiv n d = .ok ((n / d + if n % d = 0 then 0 else 1 : Nat) : Int) := by
  have hmod : (n : Int).tmod d = 0 ↔ n % d = 0 := by
    rw [← Int.ofNat_tmod]
    omega
  unfold ceilDiv
  rw [if_neg (by omega), ← Int.ofNat_tdiv]
  simp only [hmod]
  push_cast
  rfl

theorem agrees_ceilDiv (n d : Nat) (what : String) :
    Agrees (do toU64 (← ceilDiv n d) what) (do IceMarkets.toU64 (← PegDesk.ceilDiv n d)) := by
  by_cases hd : d = 0
  · subst hd
    rfl
  · rw [ceilDiv_natCast n hd]
    unfold PegDesk.ceilDiv
    rw [if_neg hd]
    exact agrees_toU64 _ what

theorem agrees_tdiv (n d : Nat) (what : String) :
    Agrees (toU64 ((n : Int).tdiv d) what) (IceMarkets.toU64 (n / d)) := by
  rw [← Int.ofNat_tdiv]
  exact agrees_toU64 _ what

theorem priceScale_eq : priceScale = (PegDesk.priceScale : Int) := rfl
theorem bpsDenom_eq : bpsDenom = (PegDesk.bps : Int) := rfl

@[simp] theorem decRatio_default : decRatio coinDecimals usdcDecimals = .ok (1, 1) := rfl

/-- `ask`. -/
theorem askPrice_agrees (price : UInt64) (spread : UInt16) :
    Agrees (askPrice price.toNat spread.toNat) (PegDesk.ask price spread) := by
  have hs := spread.toNat_lt
  have hm := checkedMul128_of_lt price.toNat_lt (b := PegDesk.bps + spread.toNat)
    (by unfold PegDesk.bps; omega)
  have h := agrees_ceilDiv (price.toNat * (PegDesk.bps + spread.toNat)) PegDesk.bps "askPrice"
  unfold askPrice PegDesk.ask
  rw [hm, bpsDenom_eq]
  push_cast at h
  exact h

/-- `bid`. -/
theorem bidPrice_agrees (price : UInt64) (spread : UInt16) :
    Agrees (bidPrice price.toNat spread.toNat) (PegDesk.bid price spread) := by
  have hm := checkedMul128_of_lt price.toNat_lt (b := PegDesk.bps - spread.toNat)
    (by unfold PegDesk.bps; omega)
  have hkeep : (if (spread.toNat : Int) < bpsDenom then bpsDenom - spread.toNat else 0) =
      ((PegDesk.bps - spread.toNat : Nat) : Int) := by
    rw [bpsDenom_eq]
    split_ifs <;> omega
  have h := agrees_tdiv (price.toNat * (PegDesk.bps - spread.toNat)) PegDesk.bps "bidPrice"
  unfold bidPrice PegDesk.bid
  dsimp only
  rw [hm, hkeep, bpsDenom_eq, ← Int.natCast_mul]
  exact h

/-- The program's conversion as one quotient. -/
theorem coinOutForUsdc_eq (usdcIn : UInt64) {ask : UInt64} (hask : 0 < ask.toNat) :
    PegDesk.coinOutForUsdc usdcIn ask =
      IceMarkets.toU64 (usdcIn.toNat * PegDesk.priceScale / ask.toNat) := by
  refine Option.ext fun coin => ?_
  rw [PegDesk.coinOutForUsdc_eq_some, toU64_eq_some, PegDesk.div_eq_iff_bounds hask]
  simp [hask]

/-- `coin_out_for_usdc`. -/
theorem coinOutForUsdcIn_agrees (usdcIn ask : UInt64) :
    Agrees (coinOutForUsdcIn usdcIn.toNat ask.toNat coinDecimals usdcDecimals)
      (PegDesk.coinOutForUsdc usdcIn ask) := by
  by_cases hzero : ask = 0
  · subst hzero
    rfl
  · have hpos : 0 < ask.toNat := Nat.pos_of_ne_zero fun h0 => hzero (UInt64.toNat_inj.mp h0)
    rw [coinOutForUsdc_eq usdcIn hpos]
    unfold coinOutForUsdcIn
    rw [if_neg (by omega), if_neg (by omega), decRatio_default, ok_bind]
    dsimp only
    rw [mul_one, mul_one, priceScale_eq, ← Int.natCast_mul]
    exact agrees_tdiv _ _ _

/-- `usdc_in_for_coin`. -/
theorem maxUsdcInForCoinOut_agrees (coinOut ask : UInt64) :
    Agrees (maxUsdcInForCoinOut coinOut.toNat ask.toNat coinDecimals usdcDecimals)
      (PegDesk.usdcInForCoin coinOut ask) := by
  have hn := checkedMul128_of_lt coinOut.toNat_lt ask.toNat_lt
  have hd : checkedMul128 PegDesk.priceScale 1 = some PegDesk.priceScale := by decide
  have h := agrees_ceilDiv (coinOut.toNat * ask.toNat) PegDesk.priceScale "maxUsdcInForCoinOut"
  unfold maxUsdcInForCoinOut PegDesk.usdcInForCoin
  rw [if_neg (by omega), if_neg (by omega), decRatio_default, PegDesk.decDen_eq,
    PegDesk.decNum_eq, hd]
  simp only [hn, checkedMul128_one hn, Option.bind_eq_bind, Option.bind_some, ok_bind,
    priceScale_eq, mul_one]
  push_cast at h
  exact h

/-- `usdc_out_for_coin`. -/
theorem usdcOutForCoinIn_agrees (coinIn bid : UInt64) :
    Agrees (usdcOutForCoinIn coinIn.toNat bid.toNat coinDecimals usdcDecimals)
      (PegDesk.usdcOutForCoin coinIn bid) := by
  have hn := checkedMul128_of_lt coinIn.toNat_lt bid.toNat_lt
  have hd : checkedMul128 PegDesk.priceScale 1 = some PegDesk.priceScale := by decide
  have h := agrees_tdiv (coinIn.toNat * bid.toNat) PegDesk.priceScale "usdcOutForCoinIn"
  unfold usdcOutForCoinIn PegDesk.usdcOutForCoin
  rw [if_neg (by omega), if_neg (by omega), decRatio_default, PegDesk.decDen_eq,
    PegDesk.decNum_eq, hd]
  simp only [hn, checkedMul128_one hn, Option.bind_eq_bind, Option.bind_some, ok_bind,
    priceScale_eq, mul_one]
  push_cast at h
  exact h

/-- `conf_bps`. -/
theorem confBps_agrees (conf price : UInt64) :
    Agrees (confBps conf.toNat price.toNat) (PegDesk.confBps conf price) := by
  have hm := checkedMul128_of_lt conf.toNat_lt (b := PegDesk.bps) (by decide)
  have h := agrees_ceilDiv (conf.toNat * PegDesk.bps) price.toNat "confBps"
  unfold confBps PegDesk.confBps
  rw [hm]
  by_cases hzero : price.toNat = 0
  · rw [hzero, if_pos (by decide)]
    rfl
  · rw [if_neg (by omega), bpsDenom_eq]
    push_cast at h
    exact h

@[simp] theorem pow10_natCast (n : Nat) : pow10 n = .ok ((10 ^ n : Nat) : Int) := by
  unfold pow10
  rw [if_neg (by omega)]
  push_cast
  rfl

/-- `normalize_to_1e8`. -/
theorem normalizeTo1e8_agrees (value : UInt64) (expo : Int) :
    Agrees (normalizeTo1e8 value.toNat expo) (PegDesk.normalizeTo1e8 value expo) := by
  unfold normalizeTo1e8 PegDesk.normalizeTo1e8
  dsimp only
  by_cases hrange : expo + 8 < -30 ∨ 30 < expo + 8
  · rw [if_pos hrange, if_pos (show ¬ (-30 ≤ expo + 8 ∧ expo + 8 ≤ 30) by omega), ite_self]
    rfl
  · rw [if_neg hrange, if_neg (show ¬ 2 ^ 31 ≤ expo + 8 by omega),
      if_neg (show ¬ ¬ (-30 ≤ expo + 8 ∧ expo + 8 ≤ 30) by omega)]
    by_cases hshift : 0 ≤ expo + 8
    · obtain ⟨n, hn⟩ := Int.eq_ofNat_of_zero_le hshift
      rw [if_pos hshift, if_pos hshift, hn, Int.toNat_natCast, pow10_natCast]
      have h := agrees_toU64 (value.toNat * 10 ^ n) "normalizeTo1e8"
      push_cast at h
      rw [ok_bind]
      push_cast
      -- a product over `u128` is one over `u64` too
      by_cases hfit : value.toNat * 10 ^ n ≤ u128Max
      · rw [checkedMul128_eq_some.mpr ⟨hfit, rfl⟩]
        exact h
      · have hnone : checkedMul128 value.toNat (10 ^ n) = none := if_neg hfit
        have hnone' : IceMarkets.toU64 (value.toNat * 10 ^ n) = none := by
          rw [toU64_eq_none]
          unfold u128Max at hfit
          omega
        rw [hnone]
        rw [hnone'] at h
        exact h
    · obtain ⟨n, hn⟩ := Int.eq_ofNat_of_zero_le (show 0 ≤ -(expo + 8) by omega)
      rw [if_neg hshift, if_neg hshift, hn, Int.toNat_natCast, pow10_natCast, ok_bind,
        ← Int.ofNat_tdiv]
      have hlt : value.toNat / 10 ^ n < 2 ^ 64 :=
        Nat.lt_of_le_of_lt (Nat.div_le_self _ _) value.toNat_lt
      obtain ⟨x, hx⟩ := exists_toU64 hlt
      rw [hx]
      unfold Agrees
      simp [Except.toOption, toU64_eq_some.mp hx]

/-- Results that agree, one after the other. -/
theorem Agrees.bind {ts : Priced Int} {rs : Option UInt64} {f : Int → Priced Int}
    {g : UInt64 → Option UInt64} (h : Agrees ts rs) (hf : ∀ v : UInt64, Agrees (f v.toNat) (g v)) :
    Agrees (ts >>= f) (rs >>= g) := by
  unfold Agrees at h
  cases ts with
  | error e =>
      cases rs with
      | none => rfl
      | some v => simp [Except.toOption] at h
  | ok p =>
      cases rs with
      | none => simp [Except.toOption] at h
      | some v =>
          have hp : p = v.toNat := by simpa [Except.toOption] using h
          subst hp
          exact hf v

/-- `scale_quote`. -/
theorem scaleQuote_agrees (rawPrice : UInt64) (rawExpo : Int) (scale : UInt8) (fxPrice : UInt64)
    (fxExpo : Int) :
    Agrees (scaleQuote rawPrice.toNat rawExpo scale.toNat fxPrice.toNat fxExpo)
      (PegDesk.scaleQuote rawPrice rawExpo scale fxPrice fxExpo) := by
  have hscale : ∀ k : UInt8, ((scale.toNat : Int) = k.toNat ↔ scale = k) := by
    intro k
    rw [← UInt8.toNat_inj]
    omega
  refine (normalizeTo1e8_agrees rawPrice rawExpo).bind fun p => ?_
  have husd : (scale.toNat : Int) = quoteUsd ↔ scale = PegDesk.quoteUsd := hscale PegDesk.quoteUsd
  have husc : (scale.toNat : Int) = quoteUsCents ↔ scale = PegDesk.quoteUsc :=
    hscale PegDesk.quoteUsc
  have heur : (scale.toNat : Int) = quoteEur ↔ scale = PegDesk.quoteEur := hscale PegDesk.quoteEur
  by_cases h0 : scale = PegDesk.quoteUsd
  · rw [if_pos (husd.mpr h0), if_pos h0]
    rfl
  · rw [if_neg (mt husd.mp h0), if_neg h0]
    by_cases h1 : scale = PegDesk.quoteUsc
    · rw [if_pos (husc.mpr h1), if_pos h1]
      unfold Agrees
      simp [Except.toOption]
    · rw [if_neg (mt husc.mp h1), if_neg h1]
      by_cases h2 : scale = PegDesk.quoteEur
      · rw [if_pos (heur.mpr h2), if_pos h2]
        refine (normalizeTo1e8_agrees fxPrice fxExpo).bind fun fx => ?_
        by_cases hfx : fx = 0
        · subst hfx
          rfl
        · have hne : (fx.toNat : Int) ≠ 0 := by
            intro h
            exact hfx (UInt64.toNat_inj.mp (by simpa using h))
          have hm := checkedMul128_of_lt p.toNat_lt fx.toNat_lt
          rw [if_neg hne, if_neg hfx, hm, priceScale_eq, ← Int.natCast_mul]
          exact agrees_tdiv _ _ _
      · rw [if_neg (mt heur.mp h2), if_neg h2]
        rfl

/-- The port's accumulation. -/
theorem foldl_weighted (legs : List (UInt64 × UInt16)) (wsum acc : Nat) :
    (legs.map fun l => ((l.1.toNat : Int), (l.2.toNat : Int))).foldl
        (fun (wsum, acc) (v, w) => (wsum + w, acc + v * w)) ((wsum : Int), (acc : Int)) =
      (((wsum + (legs.map fun l => l.2.toNat).sum : Nat) : Int),
        ((acc + (legs.map fun l => l.1.toNat * l.2.toNat).sum : Nat) : Int)) := by
  induction legs generalizing wsum acc with
  | nil => simp
  | cons l legs ih =>
      have h := ih (wsum + l.2.toNat) (acc + l.1.toNat * l.2.toNat)
      push_cast at h ⊢
      rw [List.map_cons, List.foldl_cons, h]
      simp [add_assoc]

/-- `weighted_sum`: where the program's sum overflows, the weights are too large anyway. -/
theorem weightedSum_agrees (legs : List (UInt64 × UInt16)) :
    Agrees (weightedSum (legs.map fun l => ((l.1.toNat : Int), (l.2.toNat : Int))))
      (PegDesk.weightedSum legs) := by
  have hts := foldl_weighted legs 0 0
  have hrs := @PegDesk.weightedAcc_eq legs 0 0 (Nat.zero_le _)
  have hle := PegDesk.sum_products_le legs
  simp only [Nat.cast_zero, Nat.zero_add] at hts hrs
  unfold weightedSum PegDesk.weightedSum
  rw [hts, hrs]
  dsimp only
  generalize (legs.map fun l => l.1.toNat * l.2.toNat).sum = acc at *
  generalize (legs.map fun l => l.2.toNat).sum = wsum at *
  by_cases hw : wsum = PegDesk.bps
  · subst hw
    rw [if_neg (by rw [bpsDenom_eq]; exact not_not.mpr rfl),
      if_pos (by unfold u128Max; unfold PegDesk.bps at hle; omega)]
    exact agrees_tdiv acc PegDesk.bps "weightedSum"
  · rw [if_pos (by rw [bpsDenom_eq]; omega)]
    split_ifs
    · simp only [Option.bind_eq_bind, Option.bind_some, if_pos hw]
      rfl
    · rfl

/-- The port's ratio is the program's, `null` only where that is `u64::MAX`. -/
def RatioAgrees (ts : Option Int) (rs : UInt64) : Prop :=
  match ts with
  | none => rs.toNat = 2 ^ 64 - 1
  | some r => r = rs.toNat

/-- The program's ratio as one quotient, up to `u64::MAX`. -/
theorem reserveRatioBps_toNat {reserve supply price : UInt64} (h : ¬ (supply = 0 ∨ price = 0)) :
    (PegDesk.reserveRatioBps reserve supply price).toNat =
      min (reserve.toNat * (PegDesk.bps * PegDesk.priceScale) / (supply.toNat * price.toNat))
        (2 ^ 64 - 1) := by
  have hs : 0 < supply.toNat := Nat.pos_of_ne_zero fun h0 => h (Or.inl (UInt64.toNat_inj.mp h0))
  have hp : 0 < price.toNat := Nat.pos_of_ne_zero fun h0 => h (Or.inr (UInt64.toNat_inj.mp h0))
  have hle : ∀ w : UInt64, w.toNat ≤ (PegDesk.reserveRatioBps reserve supply price).toNat ↔
      w.toNat ≤ reserve.toNat * (PegDesk.bps * PegDesk.priceScale) /
        (supply.toNat * price.toNat) := by
    intro w
    rw [PegDesk.le_reserveRatioBps, Nat.le_div_iff_mul_le (Nat.mul_pos hs hp)]
  generalize reserve.toNat * (PegDesk.bps * PegDesk.priceScale) /
    (supply.toNat * price.toNat) = r at *
  have hlt := (PegDesk.reserveRatioBps reserve supply price).toNat_lt
  refine le_antisymm (le_min ((hle _).mp (le_refl _)) (by omega)) ?_
  obtain ⟨w, hw⟩ := exists_toU64 (v := min r (2 ^ 64 - 1)) (by omega)
  have hwr := toU64_eq_some.mp hw
  rw [← hwr]
  exact (hle w).mpr (by omega)

/-- `reserve_ratio_bps`. -/
theorem reserveRatioBps_agrees (reserve supply price : UInt64) :
    ∃ r, reserveRatioBps reserve.toNat supply.toNat price.toNat coinDecimals usdcDecimals = .ok r ∧
      RatioAgrees r (PegDesk.reserveRatioBps reserve supply price) ∧
      (r = none ↔ supply = 0 ∨ price = 0) := by
  have hts : ((supply.toNat : Int) = 0 ∨ (price.toNat : Int) = 0) ↔ supply = 0 ∨ price = 0 := by
    rw [← UInt64.toNat_inj, ← UInt64.toNat_inj]
    simp
  unfold reserveRatioBps
  by_cases hzero : supply = 0 ∨ price = 0
  · rw [if_pos (hts.mpr hzero), PegDesk.reserveRatioBps, if_pos hzero]
    exact ⟨none, rfl, PegDesk.toNat_ofNat_u64Max, by simp [hzero]⟩
  · rw [if_neg (mt hts.mp hzero), decRatio_default, ok_bind]
    refine ⟨_, rfl, ?_, by simp [hzero]⟩
    unfold RatioAgrees
    dsimp only
    rw [reserveRatioBps_toNat hzero, mul_one, mul_one, priceScale_eq, bpsDenom_eq, mul_assoc,
      ← Int.natCast_mul, ← Int.natCast_mul, ← Int.natCast_mul, ← Int.ofNat_tdiv]
    unfold u64Max
    split_ifs <;> omega

/-- The port's age penalty is the program's. -/
theorem agePenaltyBps_natCast (age maxAge base : Nat) :
    agePenaltyBps age maxAge base =
      .ok (PegDesk.agePenalty age maxAge base : Int) := by
  have hhalf : (maxAge : Int).tdiv 2 = ((maxAge / 2 : Nat) : Int) := by
    rw [Int.ofNat_tdiv]
    rfl
  unfold agePenaltyBps PegDesk.agePenalty
  dsimp only
  rw [hhalf]
  by_cases h : maxAge / 2 < age ∧ maxAge / 2 < maxAge
  · have hover : (if (age : Int) < maxAge then (age : Int) else maxAge) - (maxAge / 2 : Nat) =
        ((min age maxAge - maxAge / 2 : Nat) : Int) := by
      by_cases hlt : (age : Int) < maxAge
      · rw [if_pos hlt]
        omega
      · rw [if_neg hlt]
        omega
    have hwindow : (maxAge : Int) - (maxAge / 2 : Nat) = ((maxAge - maxAge / 2 : Nat) : Int) := by
      omega
    have hpos : maxAge - maxAge / 2 ≠ 0 := by omega
    rw [if_neg (by omega), if_pos h, hover, hwindow, ← Int.natCast_mul, ceilDiv_natCast _ hpos,
      PegDesk.ceilDiv, if_neg hpos, Option.getD_some]
  · rw [if_neg h, if_pos (by omega)]
    rfl

/-- The port's confidence term is the program's. -/
theorem confSpreadBps_natCast (conf price confMult : Nat) (hprice : price ≠ 0) :
    confSpreadBps conf price confMult = .ok (PegDesk.confTerm conf price confMult : Int) := by
  have hcast : (confMult : Int) * conf * 100 = ((confMult * conf * 100 : Nat) : Int) := by
    push_cast
    rfl
  unfold confSpreadBps PegDesk.confTerm
  rw [if_neg (by omega), hcast, ceilDiv_natCast _ hprice, PegDesk.ceilDiv, if_neg hprice,
    Option.getD_some]

/-- `effective_spread_bps`; the port never throws here. -/
theorem effectiveSpreadBps_agrees (base closed confMult : UInt16) (conf price age : UInt64)
    (maxAge : UInt32) (status : UInt8) {ratio : Option Int} {reserveRatio : UInt64} (warn : UInt16)
    (hratio : RatioAgrees ratio reserveRatio) :
    effectiveSpreadBps {
        base := base.toNat, closed := closed.toNat, confMult := confMult.toNat, conf := conf.toNat
        price := price.toNat, age := age.toNat, maxAge := maxAge.toNat, status := status.toNat
        reserveRatioBps := ratio, warnBps := warn.toNat } =
      .ok ((PegDesk.effectiveSpreadBps base closed confMult conf price age maxAge status
        reserveRatio warn).toNat : Int) := by
  by_cases hzero : price = 0
  · subst hzero
    rfl
  · have hprice : price.toNat ≠ 0 := fun h => hzero (UInt64.toNat_inj.mp h)
    have hstatus : (status.toNat : Int) = statusClosed ↔ status = PegDesk.statusClosed := by
      have hone : statusClosed = (PegDesk.statusClosed.toNat : Int) := rfl
      rw [← UInt8.toNat_inj, hone]
      omega
    have hbase : (if (status.toNat : Int) = statusClosed then (closed.toNat : Int)
      else base.toNat) =
        ((if status = PegDesk.statusClosed then closed else base).toNat : Int) := by
      by_cases h : status = PegDesk.statusClosed
      · rw [if_pos (hstatus.mpr h), if_pos h]
      · rw [if_neg (mt hstatus.mp h), if_neg h]
    have hconf := confSpreadBps_natCast conf.toNat price.toNat confMult.toNat hprice
    have hage := agePenaltyBps_natCast age.toNat maxAge.toNat base.toNat
    -- no liability is never below the warning ratio
    have hwiden : ∀ n : Nat, widen ratio warn.toNat n =
        (((if reserveRatio.toNat < warn.toNat then 2 else 1) * n : Nat) : Int) := by
      intro n
      unfold widen
      cases ratio with
      | none =>
          have hwarn := warn.toNat_lt
          have hr : reserveRatio.toNat = 2 ^ 64 - 1 := hratio
          rw [if_neg (show ¬ reserveRatio.toNat < warn.toNat by omega), Nat.one_mul]
      | some r =>
          have hr : r = reserveRatio.toNat := hratio
          subst hr
          dsimp only
          split_ifs <;> omega
    unfold effectiveSpreadBps
    dsimp only
    rw [if_neg (by omega), hconf, hage, hbase, ok_bind, ok_bind,
      PegDesk.effectiveSpreadBps_toNat _ _ _ _ _ _ _ _ _ hzero, ← Int.natCast_add,
        ← Int.natCast_add,
      hwiden]
    refine congrArg Except.ok ?_
    unfold maxSpreadBps
    split_ifs <;> omega

end IceMarkets.Sdk.Pricing
