import IceMarkets.PegDesk.Run

/-!
# IceMarkets.PegDesk.Solvency

The reserve covers the coin's liability.

`surplus p` is what the reserve holds beyond the value of the outstanding supply
at the price `p`, both at the price scale. While every trade is quoted at `p`, no
trade and no deposit lowers it, whatever the spreads and statuses: each of the
three conversions rounds in the reserve's favour. A sweep lowers it, and the
reserve ratio it must leave keeps it from going below zero.
-/

namespace IceMarkets.PegDesk

open Lts

/-! ### Definitions -/

/-- What the reserve holds beyond the liability at price `p`, at the price scale. -/
def surplus (p : UInt64) (d : Desk) : Int :=
  (priceScale * d.reserveVault.amount.toNat : Nat) - (d.coinMint.supply.toNat * p.toNat : Nat)

namespace Report

/-- A trade in this step was quoted at `p`. -/
def QuotedAt (p : UInt64) : Report → Prop
  | traded _ t => t.price = p
  | _ => True

/-- The step is no sweep. -/
def SweepFree : Report → Prop
  | swept _ _ _ => False
  | _ => True

/-- A sweep in this step was valued at `p` and had to leave full backing. -/
def SafeSweep (p : UInt64) : Report → Prop
  | swept warnBps lastPrice _ => lastPrice = p ∧ bps ≤ warnBps.toNat
  | _ => True

/-- USDC the step paid into the reserve. -/
def usdcPaidIn : Report → Nat
  | traded _ t => if t.side = .buy then t.usdc.toNat else 0
  | deposited amount => amount.toNat
  | _ => 0

/-- USDC the step paid out of the reserve to a seller. -/
def usdcPaidOut : Report → Nat
  | traded _ t => if t.side = .sell then t.usdc.toNat else 0
  | _ => 0

instance (p : UInt64) : DecidablePred (QuotedAt p)
  | traded _ t => inferInstanceAs (Decidable (t.price = p))
  | deposited _ | swept _ _ _ | configured _ _ => inferInstanceAs (Decidable True)

instance (p : UInt64) : DecidablePred (SafeSweep p)
  | swept warnBps lastPrice _ =>
      inferInstanceAs (Decidable (lastPrice = p ∧ bps ≤ warnBps.toNat))
  | traded _ _ | deposited _ | configured _ _ => inferInstanceAs (Decidable True)

instance : DecidablePred SweepFree
  | swept _ _ _ => inferInstanceAs (Decidable False)
  | traded _ _ | deposited _ | configured _ _ => inferInstanceAs (Decidable True)

end Report

/-- USDC paid into the reserve along a run. -/
def usdcPaidIn (tr : List Event) : Nat := (tr.map fun e => e.report.usdcPaidIn).sum

/-- USDC paid out to sellers along a run. -/
def usdcPaidOut (tr : List Event) : Nat := (tr.map fun e => e.report.usdcPaidOut).sum

/-! ### One step -/

section Step

variable {env : Env} {p : UInt64} {d d' : Desk} {x : TradeInput} {q : Quote} {out : TradeOutcome}

/-- A purchase takes in at least the value of what it mints. -/
theorem Bought.surplus_le (h : Bought env d x q out) (hp : q.price = p) :
    surplus p d ≤ surplus p out.desk := by
  have hle := h.price_le
  rw [hp] at hle
  unfold surplus
  rw [h.effect.supply, h.effect.reserve, Nat.add_mul, Nat.mul_add, Nat.mul_comm priceScale
    out.trade.usdc.toNat]
  omega

/-- A sale pays out at most the value of what it burns. -/
theorem Sold.surplus_le (h : Sold env d x q out) (hp : q.price = p) :
    surplus p d ≤ surplus p out.desk := by
  have hle := h.le_price
  rw [hp] at hle
  unfold surplus
  rw [← h.effect.supply, ← h.effect.reserve, Nat.add_mul, Nat.mul_add, Nat.mul_comm priceScale
    out.trade.usdc.toNat]
  omega

/-- No step but a sweep lowers the surplus. -/
theorem surplus_le_of_step {e : Event} (h : Step env d e d') (hq : e.report.QuotedAt p)
    (hs : e.report.SweepFree) : surplus p d ≤ surplus p d' := by
  obtain ⟨now, e⟩ := e
  cases e with
  | traded exempt t =>
      obtain ⟨x, q, out, -, -, rfl, rfl, htrade⟩ := h.traded_inv
      rcases htrade with hbuy | hsell
      · exact hbuy.surplus_le (hbuy.trade_price ▸ hq)
      · exact hsell.surplus_le (hsell.trade_price ▸ hq)
  | deposited amount =>
      have h := h.deposited_inv
      unfold surplus
      rw [h.mint, h.reserve, Nat.mul_add]
      omega
  | swept => exact hs.elim
  | configured config commodity =>
      obtain ⟨-, rfl⟩ := h.configured_inv
      exact le_refl _

/-- A sweep that must leave full backing at `p` leaves no deficit. -/
theorem surplus_nonneg_of_swept {warn : UInt16} {amount : UInt64}
    {now : Int} (h : Step env d ⟨now, .swept warn p amount⟩ d') (hwarn : bps ≤ warn.toNat) :
    0 ≤ surplus p d' := by
  obtain ⟨rfl, hp, h⟩ := h.swept_inv
  unfold surplus
  rw [h.mint]
  rcases Nat.eq_zero_or_pos d.coinMint.supply.toNat with hs | hs
  · rw [hs, Nat.zero_mul]
    omega
  · have hratio := h.ratio hs
    rw [← hp] at hratio
    -- the ratio is at least one: `supply * p` is at most the reserve at the price scale
    have hle : bps * (d.coinMint.supply.toNat * p.toNat)
        ≤ bps * (priceScale * d'.reserveVault.amount.toNat) :=
      calc bps * (d.coinMint.supply.toNat * p.toNat)
          ≤ d.config.reserveWarnBps.toNat * (d.coinMint.supply.toNat * p.toNat) :=
            Nat.mul_le_mul_right _ hwarn
        _ ≤ d'.reserveVault.amount.toNat * (bps * priceScale) := hratio
        _ = bps * (priceScale * d'.reserveVault.amount.toNat) := by ring
    have := Nat.le_of_mul_le_mul_left hle (by decide)
    omega

theorem surplus_nonneg_of_step {e : Event} (h : Step env d e d') (hq : e.report.QuotedAt p)
    (hs : e.report.SafeSweep p) (hd : 0 ≤ surplus p d) : 0 ≤ surplus p d' := by
  obtain ⟨now, e⟩ := e
  cases e with
  | swept warn lastPrice amount =>
      obtain ⟨rfl, hwarn⟩ := hs
      exact surplus_nonneg_of_swept h hwarn
  | traded => exact hd.trans (surplus_le_of_step h hq trivial)
  | deposited => exact hd.trans (surplus_le_of_step h hq trivial)
  | configured => exact hd.trans (surplus_le_of_step h hq trivial)

/-- The reserve changes by exactly what the step reports. -/
theorem reserve_of_step {e : Event} (h : Step env d e d') (hs : e.report.SweepFree) :
    d'.reserveVault.amount.toNat + e.report.usdcPaidOut =
      d.reserveVault.amount.toNat + e.report.usdcPaidIn := by
  obtain ⟨now, e⟩ := e
  cases e with
  | traded exempt t =>
      obtain ⟨x, q, out, -, -, rfl, rfl, htrade⟩ := h.traded_inv
      unfold Report.usdcPaidOut Report.usdcPaidIn
      rcases htrade with hbuy | hsell
      · have := hbuy.effect.reserve
        simp only [hbuy.trade_side, reduceCtorEq, if_true, if_false]
        omega
      · have := hsell.effect.reserve
        simp only [hsell.trade_side, reduceCtorEq, if_true, if_false]
        omega
  | deposited amount =>
      have := h.deposited_inv.reserve
      unfold Report.usdcPaidOut Report.usdcPaidIn
      omega
  | swept => exact hs.elim
  | configured config commodity =>
      obtain ⟨-, rfl⟩ := h.configured_inv
      rfl

theorem executeSell_reserveInsufficient {coinIn usdcOut : UInt64}
    (h : executeSell d x q coinIn usdcOut = .error (.custom .reserveInsufficient)) :
    d.reserveVault.amount.toNat < usdcOut.toNat := by
  unfold executeSell at h
  rw [require_bind_eq_error (by decide)] at h
  by_contra hle
  rw [Nat.not_lt, ← UInt64.le_iff_toNat_le] at hle
  rcases bind_eq_error.mp h.2 with h | ⟨-, -, h⟩
  · exact (require_eq_error.mp h).1 hle
  · obtain ⟨⟨start, redeemed⟩, -, h⟩ := (okOr_bind_eq_error (by decide)).mp h
    obtain ⟨⟨mint, userCoin⟩, -, h⟩ := liftToken_bind_eq_error.mp h
    obtain ⟨⟨vault, userUsdc⟩, -, h⟩ := liftToken_bind_eq_error.mp h
    cases h

/-- A sell fails for lack of reserve only when it would pay out more than the reserve. -/
theorem handleSell_reserveInsufficient {coinIn minUsdcOut : UInt64}
    (h : handleSell env d x coinIn minUsdcOut = .error (.custom .reserveInsufficient)) :
    ∃ q b usdcOut, quote env d x false = .ok q ∧ bid q.price q.spreadBps = some b ∧
      usdcOutForCoin coinIn b = some usdcOut ∧ d.reserveVault.amount.toNat < usdcOut.toNat := by
  unfold handleSell at h
  obtain ⟨-, -, h⟩ := (checkTradeAccounts_raises.bind_eq_error (by decide)).mp h
  rw [require_bind_eq_error (by decide)] at h
  obtain ⟨q, hq, h⟩ := (quote_raises.bind_eq_error (by decide)).mp h.2
  obtain ⟨b, hb, h⟩ := (okOr_bind_eq_error (by decide)).mp h
  obtain ⟨usdcOut, husdc, h⟩ := (okOr_bind_eq_error (by decide)).mp h
  rw [require_bind_eq_error (by decide), require_bind_eq_error (by decide)] at h
  exact ⟨q, b, usdcOut, hq, hb, husdc, executeSell_reserveInsufficient h.2.2⟩

/-- A desk without deficit at `p` can pay any sell the supply allows at `p`. -/
theorem handleSell_ne_reserveInsufficient {coinIn minUsdcOut : UInt64}
    (hd : 0 ≤ surplus p d) (hq : ∀ q, quote env d x false = .ok q → q.price = p)
    (hcoin : coinIn ≤ d.coinMint.supply) :
    handleSell env d x coinIn minUsdcOut ≠ .error (.custom .reserveInsufficient) := by
  intro h
  obtain ⟨q, b, usdcOut, hquote, hb, husdc, hlt⟩ := handleSell_reserveInsufficient h
  obtain rfl := hq q hquote
  have hle : usdcOut.toNat * priceScale ≤ d.coinMint.supply.toNat * q.price.toNat :=
    calc usdcOut.toNat * priceScale ≤ coinIn.toNat * b.toNat := (usdcOutForCoin_eq_some.mp husdc).1
      _ ≤ d.coinMint.supply.toNat * q.price.toNat :=
        Nat.mul_le_mul (UInt64.le_iff_toNat_le.mp hcoin) (bid_le hb)
  have hmul := Nat.mul_lt_mul_of_pos_left hlt (show 0 < priceScale by decide)
  unfold surplus at hd
  rw [Nat.mul_comm] at hle
  omega

end Step

/-! ### Runs -/

section Run

variable {env : Env} {p : UInt64} {d d' : Desk} {tr : List Event}

/-- No sweep-free run at a fixed price lowers the surplus. -/
theorem surplus_le_of_run (h : DeskRun env d tr d')
    (htr : ∀ e ∈ tr, e.report.QuotedAt p ∧ e.report.SweepFree) :
    surplus p d ≤ surplus p d' :=
  h.rel (R := fun d d' => surplus p d ≤ surplus p d') (fun _ => le_refl _)
    (fun _ _ _ => le_trans) (fun _ _ _ he hstep => surplus_le_of_step hstep he.1 he.2) htr

/-- No run at a fixed price whose sweeps leave full backing creates a deficit. -/
theorem surplus_nonneg_of_run (h : DeskRun env d tr d')
    (htr : ∀ e ∈ tr, e.report.QuotedAt p ∧ e.report.SafeSweep p) (hd : 0 ≤ surplus p d) :
    0 ≤ surplus p d' :=
  h.invariantOn (I := fun d => 0 ≤ surplus p d)
    (fun _ _ _ he hstep => surplus_nonneg_of_step hstep he.1 he.2) htr hd

/-- Over a sweep-free run the reserve changes by exactly the reported flows. -/
theorem reserve_of_run (h : DeskRun env d tr d') (htr : ∀ e ∈ tr, e.report.SweepFree) :
    d'.reserveVault.amount.toNat + usdcPaidOut tr =
      d.reserveVault.amount.toNat + usdcPaidIn tr := by
  induction h with
  | nil d => rfl
  | cons head _ ih =>
      have hstep := reserve_of_step head (htr _ List.mem_cons_self)
      have := ih fun e he => htr e (List.mem_cons_of_mem _ he)
      simp only [usdcPaidOut, usdcPaidIn, List.map_cons, List.sum_cons] at this ⊢
      omega

/-- Over a sweep-free run at a fixed price, the users get at most what they paid
plus the value of the coins outstanding at its start. -/
theorem usdcPaidOut_le_of_run (h : DeskRun env d tr d')
    (htr : ∀ e ∈ tr, e.report.QuotedAt p ∧ e.report.SweepFree) :
    priceScale * usdcPaidOut tr ≤
      priceScale * usdcPaidIn tr + d.coinMint.supply.toNat * p.toNat := by
  have hsur := surplus_le_of_run h htr
  have hres := congrArg (priceScale * ·) (reserve_of_run h fun e he => (htr e he).2)
  simp only [Nat.mul_add] at hres
  unfold surplus at hsur
  omega

end Run

/-- Reserve solvency at one price `p`. Trades and deposits never lower the
surplus, whatever happens to statuses, spreads and other terms between them; a
sweep valued at `p` with a warning ratio of at least 100% leaves no deficit. So
from a desk without deficit no sell the supply allows fails for lack of reserve,
and no sweep-free run profits at the reserve's expense. -/
theorem reserve_solvency (env : Env) (p : UInt64) :
    (∀ d tr d', DeskRun env d tr d' → (∀ e ∈ tr, e.report.QuotedAt p ∧ e.report.SweepFree) →
      surplus p d ≤ surplus p d' ∧
        priceScale * usdcPaidOut tr ≤
          priceScale * usdcPaidIn tr + d.coinMint.supply.toNat * p.toNat) ∧
    (∀ d now warnBps amount d', Step env d ⟨now, .swept warnBps p amount⟩ d' → bps ≤ warnBps.toNat →
      0 ≤ surplus p d') ∧
    (∀ d tr d', DeskRun env d tr d' → (∀ e ∈ tr, e.report.QuotedAt p ∧ e.report.SafeSweep p) →
      0 ≤ surplus p d →
        0 ≤ surplus p d' ∧
          ∀ x coinIn minUsdcOut, (∀ q, quote env d' x false = .ok q → q.price = p) →
            coinIn ≤ d'.coinMint.supply →
            handleSell env d' x coinIn minUsdcOut ≠ .error (.custom .reserveInsufficient)) := by
  refine ⟨fun d tr d' h htr => ⟨surplus_le_of_run h htr, usdcPaidOut_le_of_run h htr⟩,
    fun d now warnBps amount d' h hwarn => surplus_nonneg_of_swept h hwarn, ?_⟩
  intro d tr d' h htr hd
  have hd' := surplus_nonneg_of_run h htr hd
  exact ⟨hd', fun x coinIn minUsdcOut hq hcoin => handleSell_ne_reserveInsufficient hd' hq hcoin⟩

namespace Sample

/-- A purchase of 100 USDC at a price of 100 from a desk backed 110%. -/
def bought : TradeOutcome :=
  acceptedValue (handleBuy env (desk commodity 1100000000 10000000) (input 1000 10000000000)
    100000000 0) (by decide +kernel)

/-- The sale of what that purchase minted. -/
def sold : TradeOutcome :=
  acceptedValue (handleSell env bought.desk (input 1010 10000000000) bought.trade.coin 0)
    (by decide +kernel)

theorem run_bought_sold :
    DeskRun env (desk commodity 1100000000 10000000)
      [⟨1000, .traded false bought.trade⟩, ⟨1010, .traded false sold.trade⟩] sold.desk :=
  .cons (.buy (x := input 1000 10000000000) (eq_ok_acceptedValue (by decide +kernel)))
    (.single (.sell (x := input 1010 10000000000) (eq_ok_acceptedValue (by decide +kernel))))

/-- A sweep of one USDC by the admin after the round trip. -/
def swept : Desk × SpreadFeesSwept :=
  acceptedValue (handleSweepSpreadFees sold.desk 1020 (Bytes32.fill 3)
    { mint := Bytes32.fill 5, owner := Bytes32.fill 4, amount := 0 } 1000000) (by decide +kernel)

theorem step_swept : Step env sold.desk ⟨1020, .swept 10200 10000000000 1000000⟩ swept.1 := by
  have h : handleSweepSpreadFees sold.desk 1020 (Bytes32.fill 3)
      { mint := Bytes32.fill 5, owner := Bytes32.fill 4, amount := 0 } 1000000 = .ok swept :=
    eq_ok_acceptedValue (by decide +kernel)
  exact .sweepSpreadFees h

end Sample

/-- A round trip at a price of 100 on a desk backed 110%, then a sweep, then a
sell of a whole coin. -/
theorem reserve_solvency_round_trip :
    surplus 10000000000 (Sample.desk Sample.commodity 1100000000 10000000)
        ≤ surplus 10000000000 Sample.sold.desk ∧
      0 ≤ surplus 10000000000 Sample.swept.1 ∧
      handleSell Sample.env Sample.swept.1 (Sample.input 1030 10000000000) 1000000 0
        ≠ .error (.custom .reserveInsufficient) := by
  have hrun := Sample.run_bought_sold
  have hsol := reserve_solvency Sample.env 10000000000
  refine ⟨(hsol.1 _ _ _ hrun (by decide +kernel)).1,
    hsol.2.1 _ _ _ _ _ Sample.step_swept (by decide), ?_⟩
  refine (hsol.2.2 _ _ _ (hrun.append (.single Sample.step_swept)) (by decide +kernel)
    (by decide +kernel)).2 (Sample.input 1030 10000000000) 1000000 0 (fun q hq => ?_)
    (by decide +kernel)
  have hok := eq_ok_acceptedValue
    (x := quote Sample.env Sample.swept.1 (Sample.input 1030 10000000000) false) (by decide +kernel)
  cases hok.symm.trans hq
  decide +kernel

end IceMarkets.PegDesk
