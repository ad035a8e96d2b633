import IceMarkets.Lib.Window
import IceMarkets.PegDesk.Run

/-!
# IceMarkets.PegDesk.DailyCaps

The daily mint and redemption caps over runs.

`window_minted` and `window_redeemed` are counters of net flow: a buy raises the
first and lowers the second, a sell the other way, and an expired window restarts
both. A sell by the exempt signer restarts them too but adds nothing. Each is a
`WindowCounter`, which bounds the net flow of any stretch of a window by the cap
and that of any 24 hours by twice the cap.
-/

namespace IceMarkets.PegDesk

open Lts

/-! ### Flows -/

namespace Report

/-- Coins minted minus coins burned. -/
def netMinted : Report → Int
  | traded _ t => match t.side with
    | .buy => t.coin.toNat
    | .sell => -t.coin.toNat
  | _ => 0

/-- USDC paid to non-exempt sellers minus USDC paid in by buyers. -/
def netRedeemed : Report → Int
  | traded exempt t => match t.side with
    | .buy => -t.usdc.toNat
    | .sell => if exempt then 0 else t.usdc.toNat
  | _ => 0

end Report

/-- Coins minted minus coins burned along a run. -/
def netMinted (tr : List Event) : Int := (tr.map fun e => e.report.netMinted).sum

/-- USDC paid to non-exempt sellers minus USDC paid in by buyers along a run. -/
def netRedeemed (tr : List Event) : Int := (tr.map fun e => e.report.netRedeemed).sum

/-- The steps in the 24 hours from `T`. -/
def dayFrom (T : Int) (tr : List Event) : List Event :=
  tr.filter fun e => T ≤ e.now ∧ e.now < T + dailyWindowSecs

/-- A step of a desk whose daily caps are `M` and `R`. -/
structure CappedStep (env : Env) (M R : UInt64) (s : Desk × Int) (e : Event) (s' : Desk × Int) :
    Prop where
  clocked : ClockedStep env s e s'
  dailyMintCap : s.1.commodity.dailyMintCap = M
  dailyRedeemCap : s.1.commodity.dailyRedeemCap = R

/-- A run with constant daily caps. -/
abbrev CappedRun (env : Env) (M R : UInt64) : Desk × Int → List Event → Desk × Int → Prop :=
  Run (CappedStep env M R)

/-! ### One step -/

/-- A counter with its window, from `(start, used)` to `(start', used')` by a step at
`now` of the given flow. -/
def CounterStep (start used start' used' now flow : Int) : Prop :=
  (start' = start ∧ used + flow ≤ used') ∨
    (start + dailyWindowSecs ≤ now ∧ start' = now ∧ flow ≤ used')

/-- A counter that a trade raises by `a` and lowers by `b`, and restarts with an
expired window. -/
theorem counterStep_of_window {start start' now : Int} {used used' a b : Nat}
    (hs : start' = if WindowRolls start now then now else start)
    (hu : used' = (if WindowRolls start now then 0 else used) + a - b) :
    CounterStep start used start' used' now (a - b) := by
  unfold CounterStep
  by_cases hroll : WindowRolls start now
  · rw [if_pos hroll] at hs hu
    unfold WindowRolls at hroll
    exact Or.inr ⟨by omega, hs, by omega⟩
  · rw [if_neg hroll] at hs hu
    exact Or.inl ⟨hs, by omega⟩

section Step

variable {env : Env} {d d' : Desk} {e : Event}

/-- The mint counter follows the net coins minted. -/
theorem Step.minted (h : Step env d e d') :
    CounterStep d.commodity.windowStart d.commodity.windowMinted.toNat d'.commodity.windowStart
      d'.commodity.windowMinted.toNat e.now e.report.netMinted := by
  obtain ⟨now, e⟩ := e
  cases e with
  | traded exempt t =>
      obtain ⟨x, q, out, rfl, -, rfl, rfl, hbuy | hsell⟩ := h.traded_inv
      · have hw := hbuy.effect.marks.windowStart
        have hm := hbuy.effect.minted
        rw [hbuy.quoted.now] at hw hm
        have := counterStep_of_window (b := 0) hw hm
        simpa [Report.netMinted, hbuy.trade_side] using this
      · have hw := hsell.effect.marks.windowStart
        have hm := hsell.effect.minted
        rw [hsell.quoted.now] at hw hm
        have := counterStep_of_window (a := 0) hw hm
        simpa [Report.netMinted, hsell.trade_side] using this
  | deposited amount =>
      rw [h.deposited_inv.commodity]
      exact Or.inl ⟨rfl, le_of_eq (add_zero _)⟩
  | swept warn lastPrice amount =>
      rw [h.swept_inv.2.2.commodity]
      exact Or.inl ⟨rfl, le_of_eq (add_zero _)⟩
  | configured config commodity =>
      obtain ⟨hstate, rfl⟩ := h.configured_inv
      dsimp only
      rw [hstate.windowStart, hstate.windowMinted]
      exact Or.inl ⟨rfl, le_of_eq (add_zero _)⟩

/-- The redemption counter follows the net non-exempt USDC redeemed. -/
theorem Step.redeemed (h : Step env d e d') :
    CounterStep d.commodity.windowStart d.commodity.windowRedeemed.toNat d'.commodity.windowStart
      d'.commodity.windowRedeemed.toNat e.now e.report.netRedeemed := by
  obtain ⟨now, e⟩ := e
  cases e with
  | traded exempt t =>
      obtain ⟨x, q, out, rfl, rfl, rfl, rfl, hbuy | hsell⟩ := h.traded_inv
      · have hw := hbuy.effect.marks.windowStart
        have hr := hbuy.effect.redeemed
        rw [hbuy.quoted.now] at hw hr
        have := counterStep_of_window (a := 0) hw hr
        simpa [Report.netRedeemed, hbuy.trade_side] using this
      · have hw := hsell.effect.marks.windowStart
        have hr := hsell.effect.redeemed
        rw [hsell.quoted.now] at hw hr
        have := counterStep_of_window (b := 0) hw hr
        simpa [Report.netRedeemed, hsell.trade_side] using this
  | deposited amount =>
      rw [h.deposited_inv.commodity]
      exact Or.inl ⟨rfl, le_of_eq (add_zero _)⟩
  | swept warn lastPrice amount =>
      rw [h.swept_inv.2.2.commodity]
      exact Or.inl ⟨rfl, le_of_eq (add_zero _)⟩
  | configured config commodity =>
      obtain ⟨hstate, rfl⟩ := h.configured_inv
      dsimp only
      rw [hstate.windowStart, hstate.windowRedeemed]
      exact Or.inl ⟨rfl, le_of_eq (add_zero _)⟩

/-- No step takes the mint counter past its cap. -/
theorem Step.minted_le (h : Step env d e d') (hcap : d.commodity.dailyMintCap ≠ 0)
    (hd : d.commodity.windowMinted.toNat ≤ d.commodity.dailyMintCap.toNat) :
    d'.commodity.windowMinted.toNat ≤ d.commodity.dailyMintCap.toNat := by
  obtain ⟨now, e⟩ := e
  cases e with
  | traded exempt t =>
      obtain ⟨x, q, out, -, -, rfl, rfl, hbuy | hsell⟩ := h.traded_inv
      · exact hbuy.effect.minted_le.resolve_left hcap
      · have := hsell.effect.minted
        split at this <;> omega
  | deposited amount =>
      rw [h.deposited_inv.commodity]
      exact hd
  | swept warn lastPrice amount =>
      rw [h.swept_inv.2.2.commodity]
      exact hd
  | configured config commodity =>
      obtain ⟨hstate, rfl⟩ := h.configured_inv
      dsimp only
      rw [hstate.windowMinted]
      exact hd

/-- No step takes the redemption counter past its cap: an exempt sell adds nothing. -/
theorem Step.redeemed_le (h : Step env d e d') (hcap : d.commodity.dailyRedeemCap ≠ 0)
    (hd : d.commodity.windowRedeemed.toNat ≤ d.commodity.dailyRedeemCap.toNat) :
    d'.commodity.windowRedeemed.toNat ≤ d.commodity.dailyRedeemCap.toNat := by
  obtain ⟨now, e⟩ := e
  cases e with
  | traded exempt t =>
      obtain ⟨x, q, out, -, -, rfl, rfl, hbuy | hsell⟩ := h.traded_inv
      · have := hbuy.effect.redeemed
        split at this <;> omega
      · cases hex : redeemExempt d.config x.user with
        | false => exact (hsell.effect.redeemed_le hex).resolve_left hcap
        | true =>
            have := hsell.effect.redeemed
            rw [hex] at this
            split at this
            · simp only [if_true] at this
              omega
            · simp only [if_true] at this
              omega
  | deposited amount =>
      rw [h.deposited_inv.commodity]
      exact hd
  | swept warn lastPrice amount =>
      rw [h.swept_inv.2.2.commodity]
      exact hd
  | configured config commodity =>
      obtain ⟨hstate, rfl⟩ := h.configured_inv
      dsimp only
      rw [hstate.windowRedeemed]
      exact hd

end Step

/-! ### The counters -/

section Counters

variable {env : Env} {M R : UInt64}

/-- The mint counter of runs with constant caps. -/
def mintCounter (env : Env) (R : UInt64) (hM : M ≠ 0) :
    WindowCounter (CappedStep env M R) dailyWindowSecs M.toNat where
  clock s := s.2
  start s := s.1.commodity.windowStart
  used s := s.1.commodity.windowMinted.toNat
  time e := e.now
  flow e := e.report.netMinted
  length_pos := by decide
  clock_le h := h.clocked.le_now
  clock_eq h := h.clocked.clock
  nonneg _ := Int.natCast_nonneg _
  stay_or_roll h := h.clocked.step.minted
  cap {s e s'} h hs := by
    have hcap := h.dailyMintCap
    have := h.clocked.step.minted_le (by rw [hcap]; exact hM) (by rw [hcap]; omega)
    rw [hcap] at this
    omega

/-- The redemption counter of runs with constant caps. -/
def redeemCounter (env : Env) (M : UInt64) (hR : R ≠ 0) :
    WindowCounter (CappedStep env M R) dailyWindowSecs R.toNat where
  clock s := s.2
  start s := s.1.commodity.windowStart
  used s := s.1.commodity.windowRedeemed.toNat
  time e := e.now
  flow e := e.report.netRedeemed
  length_pos := by decide
  clock_le h := h.clocked.le_now
  clock_eq h := h.clocked.clock
  nonneg _ := Int.natCast_nonneg _
  stay_or_roll h := h.clocked.step.redeemed
  cap {s e s'} h hs := by
    have hcap := h.dailyRedeemCap
    have := h.clocked.step.redeemed_le (by rw [hcap]; exact hR) (by rw [hcap]; omega)
    rw [hcap] at this
    omega

end Counters

/-- With constant non-zero caps, from counters within them: the net flow of every
stretch of the current window is at most its counter, and the counter at most its
cap; the net flow of any 24 hours is at most twice the cap. -/
theorem daily_caps_bound_net_flow (env : Env) {M R : UInt64} (hM : M ≠ 0) (hR : R ≠ 0)
    {s : Desk × Int} (hm : s.1.commodity.windowMinted ≤ M)
    (hr : s.1.commodity.windowRedeemed ≤ R) :
    (∀ before e stretch u v t, CappedRun env M R s before u → CappedStep env M R u e v →
      CappedRun env M R v stretch t →
      v.1.commodity.windowStart = t.1.commodity.windowStart →
        netMinted (e :: stretch) ≤ t.1.commodity.windowMinted.toNat ∧
        t.1.commodity.windowMinted ≤ M ∧
        netRedeemed (e :: stretch) ≤ t.1.commodity.windowRedeemed.toNat ∧
        t.1.commodity.windowRedeemed ≤ R) ∧
    (∀ tr t T, CappedRun env M R s tr t →
      netMinted (dayFrom T tr) ≤ 2 * (M.toNat : Int) ∧
        netRedeemed (dayFrom T tr) ≤ 2 * (R.toNat : Int)) := by
  rw [UInt64.le_iff_toNat_le] at hm hr
  have hm' : (mintCounter env R hM).used s ≤ M.toNat := Int.ofNat_le.mpr hm
  have hr' : (redeemCounter env M hR).used s ≤ R.toNat := Int.ofNat_le.mpr hr
  constructor
  · intro before e stretch u v t hbefore hstep hstretch hwindow
    have hrun := hbefore.append (.cons hstep hstretch)
    exact ⟨(mintCounter env R hM).stretch_le hstep hstretch hwindow,
      UInt64.le_iff_toNat_le.mpr (Int.ofNat_le.mp ((mintCounter env R hM).used_le hrun hm')),
      (redeemCounter env M hR).stretch_le hstep hstretch hwindow,
      UInt64.le_iff_toNat_le.mpr (Int.ofNat_le.mp ((redeemCounter env M hR).used_le hrun hr'))⟩
  · intro tr t T hrun
    exact ⟨(mintCounter env R hM).interval_le hrun hm',
      (redeemCounter env M hR).interval_le hrun hr'⟩

namespace Sample

/-- Daily caps of five coins and 1000 USDC, in a window opened at 1000. -/
def capped : Desk :=
  desk { commodity with dailyMintCap := 5000000, dailyRedeemCap := 1000000000
                        windowStart := 1000 } 1100000000 10000000

/-- A purchase of 100 USDC at a price of 100. -/
def cappedBought : TradeOutcome :=
  acceptedValue (handleBuy env capped (input 1000 10000000000) 100000000 0) (by decide +kernel)

/-- The sale of two coins. -/
def cappedSold : TradeOutcome :=
  acceptedValue (handleSell env cappedBought.desk (input 1010 10000000000) 2000000 0)
    (by decide +kernel)

theorem step_cappedBought :
    CappedStep env 5000000 1000000000 (capped, 1000) ⟨1000, .traded false cappedBought.trade⟩
      (cappedBought.desk, 1000) where
  clocked := {
    step := .buy (x := input 1000 10000000000) (eq_ok_acceptedValue (by decide +kernel))
    le_now := by decide
    clock := rfl }
  dailyMintCap := rfl
  dailyRedeemCap := rfl

theorem step_cappedSold :
    CappedStep env 5000000 1000000000 (cappedBought.desk, 1000)
      ⟨1010, .traded false cappedSold.trade⟩ (cappedSold.desk, 1010) where
  clocked := {
    step := .sell (x := input 1010 10000000000) (eq_ok_acceptedValue (by decide +kernel))
    le_now := by decide
    clock := rfl }
  dailyMintCap := by decide +kernel
  dailyRedeemCap := by decide +kernel

end Sample

/-- The bounds on a purchase and a larger sale in one window. -/
theorem daily_caps_bound_net_flow_sample :
    netRedeemed [⟨1000, .traded false Sample.cappedBought.trade⟩,
        ⟨1010, .traded false Sample.cappedSold.trade⟩]
      ≤ Sample.cappedSold.desk.commodity.windowRedeemed.toNat :=
  ((daily_caps_bound_net_flow Sample.env (M := 5000000) (R := 1000000000) (by decide) (by decide)
    (s := (Sample.capped, 1000)) (by decide +kernel) (by decide +kernel)).1 [] _ _ _ _ _ (.nil _)
    Sample.step_cappedBought (.single Sample.step_cappedSold) (by decide +kernel)).2.2.1

end IceMarkets.PegDesk
