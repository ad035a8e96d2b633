import IceMarkets.PegDesk.State

/-!
# IceMarkets.PegDesk.Pricing

The pure pricing math of `pricing.rs`: spreads, ask and bid, the three coin/USDC
conversions, the reserve ratio, quote scaling and the two circuit breakers.

Prices are `u64` at 1e8, amounts token base units, spreads bps. Intermediates
are `u128`, and every fallible operation is checked. The second half states what
each function returns as an exact inequality, in the direction that matters to
the reserve: `coin_out` and `usdc_out` round down, `usdc_in` and `ask` up, `bid`
and the reserve ratio down.
-/

namespace IceMarkets.PegDesk

/-! ### Definitions -/

/-- `DEC_NUM`: USDC_UNIT / COIN_UNIT, numerator. -/
def decNum : Nat := if coinDecimals ≤ usdcDecimals then 10 ^ (usdcDecimals - coinDecimals) else 1

/-- `DEC_DEN`: USDC_UNIT / COIN_UNIT, denominator. -/
def decDen : Nat := if coinDecimals ≤ usdcDecimals then 1 else 10 ^ (coinDecimals - usdcDecimals)

@[simp] theorem decNum_eq : decNum = 1 := rfl
@[simp] theorem decDen_eq : decDen = 1 := rfl

/-- `ceil_div` on `u128`. -/
def ceilDiv (n d : Nat) : Option Nat :=
  if d = 0 then none else some (n / d + if n % d = 0 then 0 else 1)

/-- Effective spread in bps: the base (or closed) spread, plus the confidence
term, plus the age penalty, doubled below the reserve warning ratio and clamped. -/
def effectiveSpreadBps (base closed confMult : UInt16) (conf price age : UInt64) (maxAge : UInt32)
    (status : UInt8) (reserveRatio : UInt64) (warn : UInt16) : UInt16 :=
  if price = 0 then maxSpreadBps
  else
    let s := (if status = statusClosed then closed else base).toNat
    -- "bps per 1% of conf/price", rounded up
    let confTerm := (ceilDiv (confMult.toNat * conf.toNat * 100) price.toNat).getD
      maxSpreadBps.toNat
    let s := saturatingAdd128 s confTerm
    let maxAge := maxAge.toNat
    let half := maxAge / 2
    let s :=
      if half < age.toNat ∧ half < maxAge then
        let overHalf := min age.toNat maxAge - half
        let window := maxAge - half
        saturatingAdd128 s ((ceilDiv (base.toNat * overHalf) window).getD 0)
      else s
    let s := if reserveRatio.toNat < warn.toNat then saturatingMul128 s 2 else s
    UInt16.ofNat (min s maxSpreadBps.toNat)

/-- `ask = price * (10_000 + spread) / 10_000`, rounded up. -/
def ask (price : UInt64) (spread : UInt16) : Option UInt64 := do
  let n ← checkedMul128 price.toNat (bps + spread.toNat)
  toU64 (← ceilDiv n bps)

/-- `bid = price * (10_000 - spread) / 10_000`, rounded down. -/
def bid (price : UInt64) (spread : UInt16) : Option UInt64 := do
  let n ← checkedMul128 price.toNat (bps - spread.toNat)
  toU64 (n / bps)

/-- Coin received for `usdcIn` at `ask`, rounded down. -/
def coinOutForUsdc (usdcIn ask : UInt64) : Option UInt64 :=
  if ask = 0 then none
  else do
    let n ← checkedMul128 (← checkedMul128 usdcIn.toNat priceScale) decDen
    let d ← checkedMul128 ask.toNat decNum
    toU64 (n / d)

/-- USDC required to receive exactly `coinOut` at `ask`, rounded up. -/
def usdcInForCoin (coinOut ask : UInt64) : Option UInt64 := do
  let n ← checkedMul128 (← checkedMul128 coinOut.toNat ask.toNat) decNum
  let d ← checkedMul128 priceScale decDen
  toU64 (← ceilDiv n d)

/-- USDC paid out for `coinIn` at `bid`, rounded down. -/
def usdcOutForCoin (coinIn bid : UInt64) : Option UInt64 := do
  let n ← checkedMul128 (← checkedMul128 coinIn.toNat bid.toNat) decNum
  let d ← checkedMul128 priceScale decDen
  toU64 (n / d)

/-- Reserve ratio in bps, rounded down; `u64::MAX` when there is no liability or
the ratio does not fit. -/
def reserveRatioBps (reserve supply price : UInt64) : UInt64 :=
  if supply = 0 ∨ price = 0 then UInt64.ofNat u64Max
  else
    let n := do checkedMul128 (← checkedMul128
      (← checkedMul128 reserve.toNat bps) priceScale) decDen
    let d := do checkedMul128 (← checkedMul128 supply.toNat price.toNat) decNum
    match n, d with
    | some n, some d => (toU64 (n / d)).getD (UInt64.ofNat u64Max)
    | none, some _ => UInt64.ofNat u64Max
    | _, none => 0

/-- `conf / price` in bps, rounded up. -/
def confBps (conf price : UInt64) : Option UInt64 := do
  let n ← checkedMul128 conf.toNat bps
  toU64 (← ceilDiv n price.toNat)

/-- Re-express `value * 10^expo` at exponent -8. `expo` is an `i32`, whose
`checked_add` can overflow. -/
def normalizeTo1e8 (value : UInt64) (expo : Int) : Option UInt64 :=
  let shift := expo + 8
  if 2 ^ 31 ≤ shift then none
  else if ¬ (-30 ≤ shift ∧ shift ≤ 30) then none
  else if 0 ≤ shift then do
    toU64 (← checkedMul128 value.toNat (10 ^ shift.toNat))
  else
    toU64 (value.toNat / 10 ^ (-shift).toNat)

/-- Convert a raw oracle value in the feed's quote unit to USD at 1e8. -/
def scaleQuote (rawPrice : UInt64) (rawExpo : Int) (quoteScale : UInt8) (fxPrice : UInt64)
    (fxExpo : Int) : Option UInt64 := do
  let p ← normalizeTo1e8 rawPrice rawExpo
  if quoteScale = quoteUsd then some p
  else if quoteScale = quoteUsc then some (p / 100)
  else if quoteScale = quoteEur then do
    let fx ← normalizeTo1e8 fxPrice fxExpo
    if fx = 0 then none
    else toU64 ((← checkedMul128 p.toNat fx.toNat) / priceScale)
  else none

/-- The accumulation loop of `weighted_sum`: `(Σ w, Σ v * w)`. -/
def weightedAcc : List (UInt64 × UInt16) → Nat → Nat → Option (Nat × Nat)
  | [], wsum, acc => some (wsum, acc)
  | (v, w) :: legs, wsum, acc => do
      let vw ← checkedMul128 v.toNat w.toNat
      weightedAcc legs (wsum + w.toNat) (← checkedAdd128 acc vw)

/-- Weighted sum of `(value_1e8, weight_bps)` legs; weights must sum to 10_000. -/
def weightedSum (legs : List (UInt64 × UInt16)) : Option UInt64 := do
  let (wsum, acc) ← weightedAcc legs 0 0
  if wsum ≠ bps then none else toU64 (acc / bps)

/-- `|price − last| / last` in bps, rounded up. -/
def deviationBps (price last : UInt64) : Option UInt64 :=
  if last = 0 then none
  else do
    let n ← checkedMul128 (absDiff price last).toNat bps
    toU64 (← ceilDiv n last.toNat)

/-- How many deviation windows the anchor's age allows: one for the window that
is open, one more for each that elapsed, at most `MAX_DEVIATION_WINDOWS`. -/
def deviationWindows (anchorTs now : Int) (windowSecs : UInt32) : Nat :=
  if windowSecs = 0 then 1
  else
    let elapsed := (max (satSubI64 now anchorTs) 0).toNat
    min (elapsed / windowSecs.toNat + 1) maxDeviationWindows

/-- The deviation breaker: within `max_deviation_bps` of the anchor for each
allowed window. Disabled when the bound is zero or there is no anchor yet. -/
def deviationOk (price anchorPrice : UInt64) (anchorTs now : Int) (maxDeviation : UInt16)
    (windowSecs : UInt32) : Bool :=
  if maxDeviation = 0 ∨ anchorPrice = 0 then true
  else
    let windows := deviationWindows anchorTs now windowSecs
    -- `u64::saturating_mul`
    let allowed := min (maxDeviation.toNat * windows) u64Max
    match deviationBps price anchorPrice with
    | some d => d.toNat ≤ allowed
    | none => false

/-- Whether a trade at `now` replaces the anchor: none yet, or the window elapsed. -/
def shouldReanchor (anchorPrice : UInt64) (anchorTs now : Int) (windowSecs : UInt32) : Bool :=
  anchorPrice = 0 ∨ (windowSecs.toNat : Int) ≤ satSubI64 now anchorTs

/-- Rolling-window accounting for the daily caps: the `(window_start, used)` to
store after adding `amount`, or `none` over the cap. A zero cap disables the
check but still rolls the window. -/
def windowAdd (windowStart : Int) (used : UInt64) (now windowSecs : Int) (cap amount : UInt64) :
    Option (Int × UInt64) := do
  let rolled := windowSecs ≤ satSubI64 now windowStart
  let start := if rolled then now else windowStart
  let used := if rolled then 0 else used
  let newUsed ← checkedAdd used amount
  if 0 < cap ∧ cap < newUsed then none else some (start, newUsed)

/-- Net-flow accounting: the opposite trade gives capacity back, down to zero. -/
def windowRelease (used amount : UInt64) : UInt64 := saturatingSub used amount

/-! ### What the functions return -/

theorem ceilDiv_eq_some {n d q : Nat} :
    ceilDiv n d = some q ↔ 0 < d ∧ n ≤ q * d ∧ q * d < n + d := by
  unfold ceilDiv
  split
  · next h => simp [h]
  · next h =>
      have hd : 0 < d := Nat.pos_of_ne_zero h
      have hmod := Nat.mod_lt n hd
      have hdiv := Nat.div_add_mod n d
      rw [Nat.mul_comm] at hdiv
      rw [Option.some.injEq]
      split
      · next h0 =>
          rw [h0, Nat.add_zero] at hdiv
          constructor
          · intro hx
            obtain rfl := hx
            exact ⟨hd, by simp only [Nat.add_zero]; omega, by simp only [Nat.add_zero]; omega⟩
          · intro hx
            obtain ⟨-, h1, h2⟩ := hx
            rw [← hdiv] at h1 h2
            have := Nat.le_of_mul_le_mul_right h1 hd
            rw [← Nat.succ_mul] at h2
            have := Nat.lt_of_mul_lt_mul_right h2
            omega
      · next h0 =>
          constructor
          · intro hx
            obtain rfl := hx
            rw [Nat.add_mul]
            exact ⟨hd, by omega, by omega⟩
          · intro hx
            obtain ⟨-, h1, h2⟩ := hx
            have hlt : n / d * d < q * d := by omega
            have := Nat.lt_of_mul_lt_mul_right hlt
            have hlt2 : q * d < (n / d + 2) * d := by rw [Nat.add_mul]; omega
            have := Nat.lt_of_mul_lt_mul_right hlt2
            omega

/-- Floor division as a pair of inequalities. -/
theorem div_eq_iff_bounds {n d q : Nat} (hd : 0 < d) :
    q = n / d ↔ q * d ≤ n ∧ n < (q + 1) * d := by
  rw [eq_comm, Nat.div_eq_iff hd, Nat.add_mul]
  omega

theorem ask_eq_some {price a : UInt64} {spread : UInt16} :
    ask price spread = some a ↔
      price.toNat * (bps + spread.toNat) ≤ a.toNat * bps ∧
        a.toNat * bps < price.toNat * (bps + spread.toNat) + bps := by
  have hs := spread.toNat_lt
  have hm := checkedMul128_of_lt price.toNat_lt (b := bps + spread.toNat) (by unfold bps; omega)
  simp only [ask, hm, Option.bind_eq_bind, Option.bind_some, Option.bind_eq_some_iff,
    ceilDiv_eq_some, toU64_eq_some]
  constructor
  · intro h
    obtain ⟨q, ⟨-, h1, h2⟩, rfl⟩ := h
    exact ⟨h1, h2⟩
  · intro h
    obtain ⟨h1, h2⟩ := h
    exact ⟨a.toNat, ⟨by decide, h1, h2⟩, rfl⟩

/-- The ask is never below the price. -/
theorem le_ask {price a : UInt64} {spread : UInt16} (h : ask price spread = some a) :
    price.toNat ≤ a.toNat := by
  have h1 := (ask_eq_some.mp h).1
  rw [Nat.mul_add] at h1
  have hle : price.toNat * bps ≤ a.toNat * bps := by omega
  exact Nat.le_of_mul_le_mul_right hle (by decide)

theorem bid_eq_some {price b : UInt64} {spread : UInt16} :
    bid price spread = some b ↔
      b.toNat * bps ≤ price.toNat * (bps - spread.toNat) ∧
        price.toNat * (bps - spread.toNat) < (b.toNat + 1) * bps := by
  have hm := checkedMul128_of_lt price.toNat_lt (b := bps - spread.toNat) (by unfold bps; omega)
  simp only [bid, hm, Option.bind_eq_bind, Option.bind_some, toU64_eq_some]
  exact div_eq_iff_bounds (by decide)

/-- The bid is never above the price. -/
theorem bid_le {price b : UInt64} {spread : UInt16} (h : bid price spread = some b) :
    b.toNat ≤ price.toNat := by
  have h1 := (bid_eq_some.mp h).1
  have h2 : price.toNat * (bps - spread.toNat) ≤ price.toNat * bps :=
    Nat.mul_le_mul_left _ (Nat.sub_le _ _)
  exact Nat.le_of_mul_le_mul_right (h1.trans h2) (by decide)

theorem coinOutForUsdc_eq_some {usdc a coin : UInt64} :
    coinOutForUsdc usdc a = some coin ↔
      0 < a.toNat ∧ coin.toNat * a.toNat ≤ usdc.toNat * priceScale ∧
        usdc.toNat * priceScale < (coin.toNat + 1) * a.toNat := by
  have hm := checkedMul128_of_lt usdc.toNat_lt (b := priceScale) (by decide)
  have hm' := checkedMul128_one hm
  have ha' := checkedMul128_of_lt a.toNat_lt (b := 1) (by decide)
  unfold coinOutForUsdc
  rw [decDen_eq, decNum_eq]
  -- with the scale abstract, no definitional check can unfold a product with it
  generalize priceScale = P at *
  split
  · next h => subst h; simp
  · next h =>
      have ha : 0 < a.toNat := by
        rcases Nat.eq_zero_or_pos a.toNat with h0 | h0
        · exact absurd (UInt64.toNat_inj.mp h0) h
        · exact h0
      rw [Nat.mul_one] at ha'
      simp only [Option.bind_eq_bind, Option.bind_eq_some_iff, hm, hm', ha', Option.some.injEq,
        exists_eq_left', toU64_eq_some, ha, true_and]
      exact div_eq_iff_bounds ha

theorem usdcInForCoin_eq_some {coin a usdc : UInt64} :
    usdcInForCoin coin a = some usdc ↔
      coin.toNat * a.toNat ≤ usdc.toNat * priceScale ∧
        usdc.toNat * priceScale < coin.toNat * a.toNat + priceScale := by
  have hm := checkedMul128_of_lt coin.toNat_lt a.toNat_lt
  have hm' := checkedMul128_one hm
  have hp : checkedMul128 priceScale 1 = some priceScale := by decide
  have hP : 0 < priceScale := by decide
  unfold usdcInForCoin
  rw [decDen_eq, decNum_eq]
  generalize priceScale = P at *
  simp only [Option.bind_eq_bind, Option.bind_eq_some_iff, hm, hm', hp, Option.some.injEq,
    exists_eq_left', ceilDiv_eq_some, toU64_eq_some]
  constructor
  · intro h
    obtain ⟨q, ⟨-, h1, h2⟩, rfl⟩ := h
    exact ⟨h1, h2⟩
  · intro h
    obtain ⟨h1, h2⟩ := h
    exact ⟨usdc.toNat, ⟨hP, h1, h2⟩, rfl⟩

theorem usdcOutForCoin_eq_some {coin b usdc : UInt64} :
    usdcOutForCoin coin b = some usdc ↔
      usdc.toNat * priceScale ≤ coin.toNat * b.toNat ∧
        coin.toNat * b.toNat < (usdc.toNat + 1) * priceScale := by
  have hm := checkedMul128_of_lt coin.toNat_lt b.toNat_lt
  have hm' := checkedMul128_one hm
  have hp : checkedMul128 priceScale 1 = some priceScale := by decide
  have hP : 0 < priceScale := by decide
  unfold usdcOutForCoin
  rw [decDen_eq, decNum_eq]
  generalize priceScale = P at *
  simp only [Option.bind_eq_bind, Option.bind_eq_some_iff, hm, hm', hp, Option.some.injEq,
    exists_eq_left', toU64_eq_some]
  exact div_eq_iff_bounds hP

/-- `u64::MAX` as a value. -/
theorem toNat_ofNat_u64Max : (UInt64.ofNat u64Max).toNat = 2 ^ 64 - 1 := by decide

/-- The reserve ratio reaches `w` bps exactly when `w` bps of the liability,
valued at `price`, are in the reserve. -/
theorem le_reserveRatioBps {reserve supply price w : UInt64} :
    w.toNat ≤ (reserveRatioBps reserve supply price).toNat ↔
      w.toNat * (supply.toNat * price.toNat) ≤ reserve.toNat * (bps * priceScale) := by
  have hw : w.toNat ≤ (UInt64.ofNat u64Max).toNat := by
    have := w.toNat_lt
    rw [toNat_ofNat_u64Max]
    omega
  unfold reserveRatioBps
  split
  · next h =>
      have h0 : supply.toNat * price.toNat = 0 := by
        rcases h with rfl | rfl <;> simp
      rw [h0, Nat.mul_zero]
      exact ⟨fun _ => Nat.zero_le _, fun _ => hw⟩
  · next h =>
      have hs : 0 < supply.toNat := Nat.pos_of_ne_zero fun h0 => h (Or.inl (UInt64.toNat_inj.mp h0))
      have hp : 0 < price.toNat := Nat.pos_of_ne_zero fun h0 => h (Or.inr (UInt64.toNat_inj.mp h0))
      have hn := checkedMul128_of_lt reserve.toNat_lt (b := bps) (by decide)
      have hn' : checkedMul128 (reserve.toNat * bps) priceScale
          = some (reserve.toNat * (bps * priceScale)) := by
        have hle := Nat.mul_le_mul_right (bps * priceScale) (Nat.le_of_lt_succ reserve.toNat_lt)
        rw [checkedMul128_eq_some, Nat.mul_assoc]
        exact ⟨hle.trans (by decide), rfl⟩
      have hd := checkedMul128_of_lt supply.toNat_lt price.toNat_lt
      have hn'' := checkedMul128_one hn'
      have hd' := checkedMul128_one hd
      rw [decDen_eq, decNum_eq]
      generalize bps * priceScale = S at *
      generalize priceScale = P at *
      have hbn : (do checkedMul128 (← checkedMul128 (← checkedMul128 reserve.toNat bps) P) 1)
          = some (reserve.toNat * S) := by
        simp only [Option.bind_eq_bind, Option.bind_eq_some_iff, hn, hn', hn'', Option.some.injEq,
          exists_eq_left']
      have hbd : (do checkedMul128 (← checkedMul128 supply.toNat price.toNat) 1)
          = some (supply.toNat * price.toNat) := by
        simp only [Option.bind_eq_bind, Option.bind_eq_some_iff, hd, hd', Option.some.injEq,
          exists_eq_left']
      rw [hbn, hbd]
      have hpos := Nat.mul_pos hs hp
      cases hq : toU64 (reserve.toNat * S / (supply.toNat * price.toNat)) with
      | some r =>
          simp only [hq, Option.getD_some, toU64_eq_some.mp hq]
          exact Nat.le_div_iff_mul_le hpos
      | none =>
          have hbig := toU64_eq_none.mp hq
          have hlt := w.toNat_lt
          simp only [hq, Option.getD_none, hw, true_iff]
          rw [← Nat.le_div_iff_mul_le hpos]
          omega

/-- The accumulation, unless it overflows. -/
theorem weightedAcc_eq (legs : List (UInt64 × UInt16)) {wsum acc : Nat} (hacc : acc ≤ u128Max) :
    weightedAcc legs wsum acc =
      if acc + (legs.map fun l => l.1.toNat * l.2.toNat).sum ≤ u128Max then
        some (wsum + (legs.map fun l => l.2.toNat).sum,
          acc + (legs.map fun l => l.1.toNat * l.2.toNat).sum)
      else none := by
  induction legs generalizing wsum acc with
  | nil => simp [weightedAcc, hacc]
  | cons l legs ih =>
      obtain ⟨v, w⟩ := l
      have hm := checkedMul128_of_lt v.toNat_lt (b := w.toNat) (by have := w.toNat_lt; omega)
      simp only [weightedAcc, hm, Option.bind_eq_bind, Option.bind_some, List.map_cons,
        List.sum_cons, ← Nat.add_assoc]
      by_cases hfit : acc + v.toNat * w.toNat ≤ u128Max
      · rw [checkedAdd128, if_pos hfit, Option.bind_some, ih hfit]
      · rw [checkedAdd128, if_neg hfit, if_neg (by omega)]
        rfl

/-- Products are bounded by the weights' sum. -/
theorem sum_products_le (legs : List (UInt64 × UInt16)) :
    (legs.map fun l => l.1.toNat * l.2.toNat).sum ≤
      2 ^ 64 * (legs.map fun l => l.2.toNat).sum := by
  induction legs with
  | nil => simp
  | cons l legs ih =>
      have hle := Nat.mul_le_mul_right l.2.toNat (Nat.le_of_lt l.1.toNat_lt)
      simp only [List.map_cons, List.sum_cons]
      omega

/-- The weighted sum is the floor of the mean, for weights of 10_000. -/
theorem weightedSum_eq_some {legs : List (UInt64 × UInt16)} {p : UInt64}
    (h : weightedSum legs = some p) :
    (legs.map fun l => l.2.toNat).sum = bps ∧
      p.toNat = (legs.map fun l => l.1.toNat * l.2.toNat).sum / bps := by
  unfold weightedSum at h
  rw [weightedAcc_eq legs (Nat.zero_le _)] at h
  by_cases hfit : 0 + (legs.map fun l => l.1.toNat * l.2.toNat).sum ≤ u128Max
  · rw [if_pos hfit] at h
    simp only [Option.bind_eq_bind, Option.bind_some, Nat.zero_add] at h
    split_ifs at h with hw
    exact ⟨not_not.mp hw, toU64_eq_some.mp h⟩
  · rw [if_neg hfit] at h
    cases h

/-- A weighted sum lies between bounds of its values. -/
theorem weightedSum_between {legs : List (UInt64 × UInt16)} {p : UInt64}
    (h : weightedSum legs = some p) {lo hi : Nat}
    (hlegs : ∀ l ∈ legs, lo ≤ l.1.toNat ∧ l.1.toNat ≤ hi) : lo ≤ p.toNat ∧ p.toNat ≤ hi := by
  obtain ⟨hw, hp⟩ := weightedSum_eq_some h
  have hbounds : lo * (legs.map fun l => l.2.toNat).sum ≤
        (legs.map fun l => l.1.toNat * l.2.toNat).sum ∧
      (legs.map fun l => l.1.toNat * l.2.toNat).sum ≤ hi * (legs.map fun l => l.2.toNat).sum := by
    clear h hw hp
    induction legs with
    | nil => simp
    | cons l legs ih =>
        obtain ⟨hlo, hhi⟩ := hlegs l List.mem_cons_self
        obtain ⟨ihlo, ihhi⟩ := ih fun l' hl' => hlegs l' (List.mem_cons_of_mem _ hl')
        have h1 := Nat.mul_le_mul_right l.2.toNat hlo
        have h2 := Nat.mul_le_mul_right l.2.toNat hhi
        simp only [List.map_cons, List.sum_cons, Nat.mul_add]
        omega
  rw [hw] at hbounds
  have hbps : 0 < bps := by decide
  rw [hp]
  constructor
  · exact (Nat.le_div_iff_mul_le hbps).mpr hbounds.1
  · exact Nat.div_le_of_le_mul (by rw [Nat.mul_comm]; exact hbounds.2)

/-- The confidence bound, with its ceiling division resolved. -/
theorem confBps_le {conf price cbps : UInt64} {maxConf : Nat} (h : confBps conf price = some cbps)
    (hle : cbps.toNat ≤ maxConf) : conf.toNat * bps ≤ maxConf * price.toNat := by
  have hm := checkedMul128_of_lt conf.toNat_lt (b := bps) (by decide)
  unfold confBps at h
  simp only [hm, Option.bind_eq_bind, Option.bind_some, Option.bind_eq_some_iff, ceilDiv_eq_some,
    toU64_eq_some] at h
  obtain ⟨q, ⟨-, hq, -⟩, rfl⟩ := h
  exact hq.trans (Nat.mul_le_mul_right _ hle)

theorem deviationWindows_le (anchorTs now : Int) (windowSecs : UInt32) :
    deviationWindows anchorTs now windowSecs ≤ maxDeviationWindows := by
  unfold deviationWindows
  split
  · decide
  · exact Nat.min_le_right _ _

/-- The allowed windows never exceed the one that is open plus those elapsed. -/
theorem deviationWindows_le_elapsed {anchorTs now : Int} {windowSecs : UInt32}
    (h : anchorTs ≤ now) :
    deviationWindows anchorTs now windowSecs ≤ (now - anchorTs).toNat / windowSecs.toNat + 1 := by
  unfold deviationWindows
  split
  · exact Nat.le_add_left _ _
  · refine (Nat.min_le_left _ _).trans (Nat.succ_le_succ (Nat.div_le_div_right ?_))
    have := clampI64_le_max (now - anchorTs)
    unfold satSubI64
    unfold i64Min at this
    omega

/-- The breaker, with its ceiling division and range check resolved: the price
is within the allowed number of steps of the anchor. -/
theorem deviationOk_iff {price anchor : UInt64} {ts now : Int} {maxDev : UInt16} {W : UInt32}
    (hd : maxDev ≠ 0) (ha : anchor ≠ 0) :
    deviationOk price anchor ts now maxDev W = true ↔
      (absDiff price anchor).toNat * bps ≤
        maxDev.toNat * deviationWindows ts now W * anchor.toNat := by
  have hpos : 0 < anchor.toNat := Nat.pos_of_ne_zero fun h0 => ha (UInt64.toNat_inj.mp h0)
  have hm := checkedMul128_of_lt (absDiff price anchor).toNat_lt (b := bps) (by decide)
  have hdev : deviationBps price anchor
      = (ceilDiv ((absDiff price anchor).toNat * bps) anchor.toNat).bind toU64 := by
    unfold deviationBps
    rw [if_neg ha, hm]
    rfl
  have hmul : maxDev.toNat * deviationWindows ts now W < 2 ^ 64 - 1 := by
    have h1 : maxDev.toNat ≤ 2 ^ 16 := Nat.le_of_lt maxDev.toNat_lt
    have h2 := Nat.mul_le_mul h1 (deviationWindows_le ts now W)
    exact Nat.lt_of_le_of_lt h2 (by decide)
  have hmin : min (maxDev.toNat * deviationWindows ts now W) u64Max
      = maxDev.toNat * deviationWindows ts now W := Nat.min_eq_left (Nat.le_of_lt hmul)
  obtain ⟨q, hq⟩ : ∃ q, ceilDiv ((absDiff price anchor).toNat * bps) anchor.toNat = some q := by
    unfold ceilDiv
    rw [if_neg (by omega)]
    exact ⟨_, rfl⟩
  have hq' := ceilDiv_eq_some.mp hq
  have hle : ∀ k, q ≤ k ↔ (absDiff price anchor).toNat * bps ≤ k * anchor.toNat := by
    intro k
    constructor
    · exact fun h => hq'.2.1.trans (Nat.mul_le_mul_right _ h)
    · intro h
      have h3 : q * anchor.toNat < (k + 1) * anchor.toNat := by
        rw [Nat.add_mul]
        omega
      exact Nat.le_of_lt_succ (Nat.lt_of_mul_lt_mul_right h3)
  unfold deviationOk
  rw [if_neg (by simp [hd, ha])]
  simp only [hmin, hdev, hq, Option.bind_some]
  rw [← hle]
  cases hx : toU64 q with
  | some d => simp [toU64_eq_some.mp hx]
  | none =>
      have := toU64_eq_none.mp hx
      simp only [Bool.false_eq_true, false_iff]
      omega

@[simp] theorem shouldReanchor_iff {anchor : UInt64} {ts now : Int} {W : UInt32} :
    shouldReanchor anchor ts now W = true ↔ anchor = 0 ∨ (W.toNat : Int) ≤ now - ts := by
  have hW := W.toNat_lt
  have h := le_clampI64 (c := W.toNat) (v := now - ts) (by unfold i64Max; omega)
    (by unfold i64Min; omega)
  unfold shouldReanchor satSubI64
  rw [decide_eq_true_eq, h]

/-- Whether the daily window has expired at `now`. -/
def WindowRolls (windowStart now : Int) : Prop := dailyWindowSecs ≤ now - windowStart

instance (windowStart now : Int) : Decidable (WindowRolls windowStart now) :=
  inferInstanceAs (Decidable (_ ≤ _))

/-- `window_add` over a daily window: it restarts the counter exactly when the
window has expired, adds the amount and stays within a non-zero cap. -/
theorem windowAdd_eq_some {ws now start : Int} {used cap amount used' : UInt64} :
    windowAdd ws used now dailyWindowSecs cap amount = some (start, used') ↔
      start = (if WindowRolls ws now then now else ws) ∧
        used'.toNat = (if WindowRolls ws now then 0 else used.toNat) + amount.toNat ∧
        (cap = 0 ∨ used'.toNat ≤ cap.toNat) := by
  have h : dailyWindowSecs ≤ satSubI64 now ws ↔ WindowRolls ws now :=
    le_clampI64 (by decide) (by decide)
  have hcap : ∀ u : UInt64, ¬ (0 < cap ∧ cap < u) ↔ cap = 0 ∨ u.toNat ≤ cap.toNat := by
    intro u
    rw [UInt64.lt_iff_toNat_lt, UInt64.lt_iff_toNat_lt, ← UInt64.toNat_inj]
    simp only [UInt64.toNat_zero]
    omega
  unfold windowAdd
  simp only [h, Option.bind_eq_bind, Option.bind_eq_some_iff, checkedAdd_eq_some]
  by_cases hr : WindowRolls ws now
  · simp only [hr, if_true, UInt64.toNat_zero, Nat.zero_add]
    constructor
    · intro hx
      obtain ⟨u, hu, h'⟩ := hx
      split at h'
      · cases h'
      · next hc =>
          cases h'
          exact ⟨rfl, hu, (hcap _).mp hc⟩
    · intro hx
      obtain ⟨rfl, hu, hc⟩ := hx
      exact ⟨used', hu, by rw [if_neg ((hcap _).mpr hc)]⟩
  · simp only [hr, if_false]
    constructor
    · intro hx
      obtain ⟨u, hu, h'⟩ := hx
      split at h'
      · cases h'
      · next hc =>
          cases h'
          exact ⟨rfl, hu, (hcap _).mp hc⟩
    · intro hx
      obtain ⟨rfl, hu, hc⟩ := hx
      exact ⟨used', hu, by rw [if_neg ((hcap _).mpr hc)]⟩

/-- What fits in a window fits in one with less used. -/
theorem windowAdd_mono {ws now : Int} {used used' cap amount : UInt64} {r : Int × UInt64}
    (h : windowAdd ws used now dailyWindowSecs cap amount = some r)
    (hle : used'.toNat ≤ used.toNat) :
    windowAdd ws used' now dailyWindowSecs cap amount ≠ none := by
  obtain ⟨start, u⟩ := r
  obtain ⟨-, hu, hcap⟩ := windowAdd_eq_some.mp h
  have hlt := u.toNat_lt
  have hle' : (if WindowRolls ws now then 0 else used'.toNat) + amount.toNat ≤ u.toNat := by
    rw [hu]
    split <;> omega
  obtain ⟨u', hu'⟩ := exists_toU64 (v := (if WindowRolls ws now then 0 else used'.toNat)
    + amount.toNat) (by omega)
  rw [toU64_eq_some] at hu'
  have hsome : windowAdd ws used' now dailyWindowSecs cap amount
      = some (if WindowRolls ws now then now else ws, u') := by
    rw [windowAdd_eq_some]
    exact ⟨rfl, hu', hcap.imp_right fun hc => by omega⟩
  rw [hsome]
  exact Option.some_ne_none _

@[simp] theorem windowRelease_toNat (used amount : UInt64) :
    (windowRelease used amount).toNat = used.toNat - amount.toNat := saturatingSub_toNat _ _

end IceMarkets.PegDesk
