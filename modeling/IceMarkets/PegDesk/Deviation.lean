import IceMarkets.Lib.Walk
import IceMarkets.PegDesk.Run

/-!
# IceMarkets.PegDesk.Deviation

The price-deviation breaker over runs.

A trade may move the price by one `max_deviation_bps` step for each window since
the anchor was set, plus one for the window that is open, and a trade at least a
window after the anchor replaces it. A trade that uses the open window's step and
replaces the anchor leaves that same step to the next trade, so a window can
yield two steps. What keeps the intended bound is that no re-anchoring trade uses
more steps than windows elapsed (`SpendsElapsed`); without it every elapsed
window may count twice.
-/

namespace IceMarkets.PegDesk

open Lts Walk

/-! ### Definitions -/

/-- `max_deviation_bps / 10_000`. -/
def deviationStep (maxDeviation : UInt16) : ℚ := maxDeviation.toNat / bps

/-- Whole windows between two times. -/
def windowsBetween (t₀ t : Int) (W : UInt32) : Nat := (t - t₀).toNat / W.toNat

/-- A parameter change in this step leaves the breaker's parameters. -/
def Report.KeepsDeviation (D : UInt16) (W : UInt32) : Report → Prop
  | configured _ c => c.maxDeviationBps = D ∧ c.deviationWindowSecs = W
  | _ => True

/-- A trade in this step that replaces the anchor uses one step for each elapsed
window, and not the open window's. -/
def Report.SpendsElapsed (c : Commodity) (now : Int) : Report → Prop
  | traded _ t =>
      shouldReanchor c.anchorPrice c.anchorTs now c.deviationWindowSecs = true →
        (absDiff t.price c.anchorPrice).toNat * bps ≤
          c.maxDeviationBps.toNat * windowsBetween c.anchorTs now c.deviationWindowSecs *
            c.anchorPrice.toNat
  | _ => True

/-- The breaker is on, with an anchor `A` set at `t₀`. -/
structure AnchoredAt (D : UInt16) (W : UInt32) (A : UInt64) (t₀ : Int) (s : Desk × Int) :
    Prop where
  maxDeviation : s.1.commodity.maxDeviationBps = D
  windowSecs : s.1.commodity.deviationWindowSecs = W
  anchorPrice : s.1.commodity.anchorPrice = A
  anchorTs : s.1.commodity.anchorTs = t₀
  clock : t₀ ≤ s.2
  enabled : D ≠ 0
  window_pos : W ≠ 0
  anchor_ne : A ≠ 0

/-- Along a run from `A` at `t₀`: the anchor is within `c` steps for each window
up to the time it was set. -/
structure AnchorInv (c : Nat) (D : UInt16) (W : UInt32) (A : UInt64) (t₀ : Int)
    (s : Desk × Int) : Prop where
  maxDeviation : s.1.commodity.maxDeviationBps = D
  windowSecs : s.1.commodity.deviationWindowSecs = W
  anchor_ne : s.1.commodity.anchorPrice ≠ 0
  start_le : t₀ ≤ s.1.commodity.anchorTs
  le_clock : s.1.commodity.anchorTs ≤ s.2
  reach : Reach (deviationStep D) (A.toNat : ℚ)
    (c * windowsBetween t₀ s.1.commodity.anchorTs W) (s.1.commodity.anchorPrice.toNat : ℚ)

/-! ### Windows and moves -/

theorem deviationStep_nonneg (D : UInt16) : 0 ≤ deviationStep D := by
  unfold deviationStep
  positivity

/-- Windows up to a time between add up to at most the whole. -/
theorem windowsBetween_add_le {t₀ t t' : Int} (h : t₀ ≤ t) (h' : t ≤ t') (W : UInt32) :
    windowsBetween t₀ t W + windowsBetween t t' W ≤ windowsBetween t₀ t' W := by
  unfold windowsBetween
  have hsum : (t' - t₀).toNat = (t - t₀).toNat + (t' - t).toNat := by omega
  rw [hsum]
  exact Nat.div_add_div_le_add_div

/-- A full window has passed since the anchor when a trade replaces it. -/
theorem windowsBetween_pos {W : UInt32} {t t' : Int} (hW : W ≠ 0)
    (h : (W.toNat : Int) ≤ t' - t) : 0 < windowsBetween t t' W := by
  have hpos : 0 < W.toNat := Nat.pos_of_ne_zero fun h0 => hW (UInt32.toNat_inj.mp h0)
  exact Nat.div_pos (by omega) hpos

/-- The breaker's comparison is a move of that many steps. -/
theorem move_of_absDiff {p a : UInt64} {D : UInt16} {m : Nat}
    (h : (absDiff p a).toNat * bps ≤ D.toNat * m * a.toNat) :
    Move (deviationStep D) m (a.toNat : ℚ) (p.toNat : ℚ) := by
  have hq : ((absDiff p a).toNat : ℚ) * bps ≤ D.toNat * m * a.toNat := by exact_mod_cast h
  have hb : (0 : ℚ) < bps := by unfold bps; norm_num
  unfold Move deviationStep
  rw [← cast_absDiff, show (m : ℚ) * (D.toNat / bps) * a.toNat =
    D.toNat * m * a.toNat / bps by ring,
    le_div_iff₀ hb]
  exact hq

/-! ### One step -/

section Step

variable {env : Env} {c : Nat} {D : UInt16} {W : UInt32} {A : UInt64} {t₀ : Int}
  {s s' : Desk × Int} {now : Int} {exempt : Bool} {t : Trade}

/-- What a trade does to the anchor, and how far from it its price may be. -/
structure AnchorStep (c c' : Commodity) (now : Int) (price : UInt64) : Prop where
  price_ne : price ≠ 0
  deviation : deviationOk price c.anchorPrice c.anchorTs now c.maxDeviationBps
    c.deviationWindowSecs = true
  maxDeviation : c'.maxDeviationBps = c.maxDeviationBps
  windowSecs : c'.deviationWindowSecs = c.deviationWindowSecs
  anchor : (shouldReanchor c.anchorPrice c.anchorTs now c.deviationWindowSecs = true ∧
      c'.anchorPrice = price ∧ c'.anchorTs = now) ∨
    (shouldReanchor c.anchorPrice c.anchorTs now c.deviationWindowSecs = false ∧
      c'.anchorPrice = c.anchorPrice ∧ c'.anchorTs = c.anchorTs)

theorem anchorStep_of_marks {d d' : Desk} {x : TradeInput} {q : Quote} {isBuy : Bool}
    (hq : Quoted env d x isBuy q) (hm : TradeMarks d q d') :
    AnchorStep d.commodity d'.commodity x.now q.price where
  price_ne := fun h0 => by
    have := hq.price_pos
    rw [h0] at this
    exact absurd this (by decide)
  deviation := hq.deviation
  maxDeviation := hm.terms.maxDeviationBps
  windowSecs := hm.terms.deviationWindowSecs
  anchor := by
    rw [← hq.now]
    cases hr : shouldReanchor d.commodity.anchorPrice d.commodity.anchorTs q.now
      d.commodity.deviationWindowSecs with
    | true => exact Or.inl ⟨rfl, hm.reanchored hr⟩
    | false => exact Or.inr ⟨rfl, hm.anchored hr⟩

theorem Step.anchorStep {d d' : Desk} (h : Step env d ⟨now, .traded exempt t⟩ d') :
    AnchorStep d.commodity d'.commodity now t.price := by
  obtain ⟨x, q, out, rfl, -, rfl, rfl, hbuy | hsell⟩ := h.traded_inv
  · rw [hbuy.trade_price]
    exact anchorStep_of_marks hbuy.quoted hbuy.effect.marks
  · rw [hsell.trade_price]
    exact anchorStep_of_marks hsell.quoted hsell.effect.marks

/-- A trade's price is within one step for each window since the anchor, plus one. -/
theorem AnchorInv.traded_move (hD : D ≠ 0) (hs : AnchorInv c D W A t₀ s)
    (h : ClockedStep env s ⟨now, .traded exempt t⟩ s') :
    Move (deviationStep D) (windowsBetween s.1.commodity.anchorTs now W + 1)
      (s.1.commodity.anchorPrice.toNat : ℚ) (t.price.toNat : ℚ) := by
  have hstep := h.step.anchorStep
  have hle : s.1.commodity.anchorTs ≤ now := hs.le_clock.trans h.le_now
  have hdev := (deviationOk_iff (by rw [hs.maxDeviation]; exact hD) hs.anchor_ne).mp hstep.deviation
  rw [hs.maxDeviation, hs.windowSecs] at hdev
  refine move_of_absDiff (hdev.trans ?_)
  exact Nat.mul_le_mul_right _ (Nat.mul_le_mul_left _ (deviationWindows_le_elapsed hle))

/-- A step that moves neither the anchor nor the parameters keeps the invariant. -/
theorem AnchorInv.keep {e : Event} (hs : AnchorInv c D W A t₀ s) (h : ClockedStep env s e s')
    (hD : s'.1.commodity.maxDeviationBps = D) (hW : s'.1.commodity.deviationWindowSecs = W)
    (hp : s'.1.commodity.anchorPrice = s.1.commodity.anchorPrice)
    (hts : s'.1.commodity.anchorTs = s.1.commodity.anchorTs) : AnchorInv c D W A t₀ s' where
  maxDeviation := hD
  windowSecs := hW
  anchor_ne := by rw [hp]; exact hs.anchor_ne
  start_le := by rw [hts]; exact hs.start_le
  le_clock := by rw [hts, h.clock]; exact hs.le_clock.trans h.le_now
  reach := by rw [hp, hts]; exact hs.reach

/-- A trade keeps the invariant if its price, when it becomes the anchor, is within
`c` steps for each window since the last. -/
theorem AnchorInv.traded (hs : AnchorInv c D W A t₀ s)
    (h : ClockedStep env s ⟨now, .traded exempt t⟩ s')
    (hmove : (W.toNat : Int) ≤ now - s.1.commodity.anchorTs →
      Move (deviationStep D) (c * windowsBetween s.1.commodity.anchorTs now W)
        (s.1.commodity.anchorPrice.toNat : ℚ) (t.price.toNat : ℚ)) :
    AnchorInv c D W A t₀ s' := by
  have hstep := h.step.anchorStep
  have hle : s.1.commodity.anchorTs ≤ now := hs.le_clock.trans h.le_now
  have hD := hstep.maxDeviation.trans hs.maxDeviation
  have hW := hstep.windowSecs.trans hs.windowSecs
  rcases hstep.anchor with ⟨hre, hp, hts⟩ | ⟨-, hp, hts⟩
  · have helapsed : (W.toNat : Int) ≤ now - s.1.commodity.anchorTs := by
      rw [← hs.windowSecs]
      exact (shouldReanchor_iff.mp hre).resolve_left hs.anchor_ne
    have hreach := hs.reach.move (Nat.cast_nonneg _) (deviationStep_nonneg D) (Nat.cast_nonneg _)
      (hmove helapsed)
    rw [← Nat.mul_add] at hreach
    exact {
      maxDeviation := hD
      windowSecs := hW
      anchor_ne := by rw [hp]; exact hstep.price_ne
      start_le := by rw [hts]; exact hs.start_le.trans hle
      le_clock := by rw [hts, h.clock]
      reach := by
        rw [hp, hts]
        exact hreach.mono (Nat.cast_nonneg _) (deviationStep_nonneg D)
          (Nat.mul_le_mul_left _ (windowsBetween_add_le hs.start_le hle W)) }
  · exact hs.keep h hD hW hp hts

/-- A step that is no trade keeps the invariant if it keeps the parameters. -/
theorem AnchorInv.other {e : Event} (hs : AnchorInv c D W A t₀ s) (h : ClockedStep env s e s')
    (hk : e.report.KeepsDeviation D W) (he : ∀ exempt t, e.report ≠ .traded exempt t) :
    AnchorInv c D W A t₀ s' := by
  obtain ⟨now, e⟩ := e
  cases e with
  | traded exempt t => exact absurd rfl (he exempt t)
  | deposited amount =>
      have hsame : s'.1.commodity = _ := h.step.deposited_inv.commodity
      apply hs.keep h <;> rw [hsame]
      · exact hs.maxDeviation
      · exact hs.windowSecs
  | swept warn lastPrice amount =>
      have hsame : s'.1.commodity = _ := h.step.swept_inv.2.2.commodity
      apply hs.keep h <;> rw [hsame]
      · exact hs.maxDeviation
      · exact hs.windowSecs
  | configured config commodity =>
      obtain ⟨hstate, heq⟩ := h.step.configured_inv
      apply hs.keep h <;> rw [heq]
      · exact hk.1
      · exact hk.2
      · exact hstate.anchorPrice
      · exact hstate.anchorTs

/-- One step for each window, when re-anchoring trades spend elapsed windows only. -/
theorem AnchorInv.step_one {e : Event} (hs : AnchorInv 1 D W A t₀ s) (h : ClockedStep env s e s')
    (hk : e.report.KeepsDeviation D W) (hspend : e.report.SpendsElapsed s.1.commodity e.now) :
    AnchorInv 1 D W A t₀ s' := by
  obtain ⟨now, e⟩ := e
  cases e with
  | traded exempt t =>
      refine hs.traded h fun helapsed => ?_
      rw [Nat.one_mul]
      have hre : shouldReanchor s.1.commodity.anchorPrice s.1.commodity.anchorTs now
          s.1.commodity.deviationWindowSecs = true := by
        rw [shouldReanchor_iff, hs.windowSecs]
        exact Or.inr helapsed
      have hle := hspend hre
      rw [hs.maxDeviation, hs.windowSecs] at hle
      exact move_of_absDiff hle
  | deposited => exact hs.other h hk nofun
  | swept => exact hs.other h hk nofun
  | configured => exact hs.other h hk nofun

/-- Two steps for each window, whatever the trades. -/
theorem AnchorInv.step_two {e : Event} (hD : D ≠ 0) (hW : W ≠ 0) (hs : AnchorInv 2 D W A t₀ s)
    (h : ClockedStep env s e s') (hk : e.report.KeepsDeviation D W) : AnchorInv 2 D W A t₀ s' := by
  obtain ⟨now, e⟩ := e
  cases e with
  | traded exempt t =>
      refine hs.traded h fun helapsed => ?_
      have hpos := windowsBetween_pos hW helapsed
      have hmove := hs.traded_move hD h
      unfold Move at hmove ⊢
      refine hmove.trans (mul_le_mul_of_nonneg_right (mul_le_mul_of_nonneg_right ?_
        (deviationStep_nonneg D)) (Nat.cast_nonneg _))
      rw [Nat.cast_le]
      omega
  | deposited => exact hs.other h hk nofun
  | swept => exact hs.other h hk nofun
  | configured => exact hs.other h hk nofun

/-- The price of a trade from an anchor within `c` steps for each window. -/
theorem AnchorInv.traded_reach (hD : D ≠ 0) (hc : 0 < c) (hs : AnchorInv c D W A t₀ s)
    (h : ClockedStep env s ⟨now, .traded exempt t⟩ s') :
    Reach (deviationStep D) (A.toNat : ℚ) (c * windowsBetween t₀ now W + 1)
      (t.price.toNat : ℚ) := by
  have hle : s.1.commodity.anchorTs ≤ now := hs.le_clock.trans h.le_now
  have hadd := windowsBetween_add_le hs.start_le hle W
  have hreach := hs.reach.move (Nat.cast_nonneg _) (deviationStep_nonneg D) (Nat.cast_nonneg _)
    (hs.traded_move hD h)
  refine hreach.mono (Nat.cast_nonneg _) (deviationStep_nonneg D) ?_
  have hmul := Nat.mul_le_mul_left c hadd
  rw [Nat.mul_add] at hmul
  have := Nat.le_mul_of_pos_left (windowsBetween s.1.commodity.anchorTs now W) hc
  omega

end Step

/-! ### Runs -/

section Run

variable {env : Env} {D : UInt16} {W : UInt32} {A : UInt64} {t₀ : Int} {s s' s'' : Desk × Int}
  {tr : List Event} {now : Int} {exempt : Bool} {t : Trade}

/-- A step that leaves the breaker's parameters, and whose re-anchoring trade uses
one step for each elapsed window. -/
structure PacedStep (env : Env) (D : UInt16) (W : UInt32) (s : Desk × Int) (e : Event)
    (s' : Desk × Int) : Prop where
  step : ClockedStep env s e s'
  keeps : e.report.KeepsDeviation D W
  spends : e.report.SpendsElapsed s.1.commodity e.now

theorem AnchoredAt.inv (h : AnchoredAt D W A t₀ s) (c : Nat) : AnchorInv c D W A t₀ s where
  maxDeviation := h.maxDeviation
  windowSecs := h.windowSecs
  anchor_ne := by rw [h.anchorPrice]; exact h.anchor_ne
  start_le := by rw [h.anchorTs]
  le_clock := by rw [h.anchorTs]; exact h.clock
  reach := by
    rw [h.anchorPrice, h.anchorTs]
    exact (Reach.refl (Nat.cast_nonneg _)).mono (Nat.cast_nonneg _) (deviationStep_nonneg D)
      (Nat.zero_le _)

theorem AnchoredAt.run_one (h : AnchoredAt D W A t₀ s) (hrun : Run (PacedStep env D W) s tr s') :
    AnchorInv 1 D W A t₀ s' :=
  hrun.invariant (I := AnchorInv 1 D W A t₀)
    (fun _ _ _ hp hs => hs.step_one hp.step hp.keeps hp.spends) (h.inv 1)

theorem AnchoredAt.run_two (h : AnchoredAt D W A t₀ s) (hrun : ClockedRun env s tr s')
    (hk : ∀ e ∈ tr, e.report.KeepsDeviation D W) : AnchorInv 2 D W A t₀ s' :=
  hrun.invariantOn (P := fun e => e.report.KeepsDeviation D W) (I := AnchorInv 2 D W A t₀)
    (fun _ _ _ he hp hs => hs.step_two h.enabled h.window_pos hp he) hk (h.inv 2)

/-- After a run whose re-anchoring trades use one step for each elapsed window,
every trade's price is within one step for each window started since the first
anchor. -/
theorem traded_price_within (h : AnchoredAt D W A t₀ s) (hrun : Run (PacedStep env D W) s tr s')
    (hlast : ClockedStep env s' ⟨now, .traded exempt t⟩ s'') :
    (A.toNat : ℚ) * (1 - (windowsBetween t₀ now W + 1) * deviationStep D) ≤ t.price.toNat ∧
      (t.price.toNat : ℚ) ≤ A.toNat * (1 + deviationStep D) ^ (windowsBetween t₀ now W + 1) := by
  have hreach := (h.run_one hrun).traded_reach h.enabled Nat.one_pos hlast
  rw [Nat.one_mul] at hreach
  refine ⟨?_, hreach.upper⟩
  have hlow := hreach.lower
  push_cast at hlow
  exact hlow

/-- In any run, an elapsed window counts at most twice. -/
theorem traded_price_within_twice (h : AnchoredAt D W A t₀ s) (hrun : ClockedRun env s tr s')
    (hk : ∀ e ∈ tr, e.report.KeepsDeviation D W)
    (hlast : ClockedStep env s' ⟨now, .traded exempt t⟩ s'') :
    Reach (deviationStep D) (A.toNat : ℚ) (2 * windowsBetween t₀ now W + 1) (t.price.toNat : ℚ) :=
  (h.run_two hrun hk).traded_reach h.enabled Nat.two_pos hlast

end Run

/-! ### Two steps in one window -/

namespace Sample

/-- Anchored at 100 at time 1000, one percent for each minute. -/
def anchored : Desk :=
  desk { commodity with maxDeviationBps := 100, deviationWindowSecs := 60
                        anchorPrice := 10000000000, anchorTs := 1000 } 1100000000 10000000

/-- A minute later, a purchase at 102: two windows, and a new anchor. -/
def movedOnce : TradeOutcome :=
  acceptedValue (handleBuy env anchored (input 1060 10200000000) 100000000 0) (by decide +kernel)

/-- In the same second, a purchase at 103.02: one window from the new anchor. -/
def movedTwice : TradeOutcome :=
  acceptedValue (handleBuy env movedOnce.desk (input 1060 10302000000) 100000000 0)
    (by decide +kernel)

/-- Instead, a purchase at 101 a minute later, using the elapsed window only. -/
def movedOneWindow : TradeOutcome :=
  acceptedValue (handleBuy env anchored (input 1060 10100000000) 100000000 0) (by decide +kernel)

/-- And one at 102.01 in the same second. -/
def movedOpenWindow : TradeOutcome :=
  acceptedValue (handleBuy env movedOneWindow.desk (input 1060 10201000000) 100000000 0)
    (by decide +kernel)

theorem anchoredAt : AnchoredAt 100 60 10000000000 1000 (anchored, 1000) := by
  constructor <;> decide +kernel

theorem step_movedOnce :
    ClockedStep env (anchored, 1000) ⟨1060, .traded false movedOnce.trade⟩
      (movedOnce.desk, 1060) where
  step := .buy (x := input 1060 10200000000) (eq_ok_acceptedValue (by decide +kernel))
  le_now := by decide
  clock := rfl

theorem step_movedTwice :
    ClockedStep env (movedOnce.desk, 1060) ⟨1060, .traded false movedTwice.trade⟩
      (movedTwice.desk, 1060) where
  step := .buy (x := input 1060 10302000000) (eq_ok_acceptedValue (by decide +kernel))
  le_now := by decide
  clock := rfl

theorem step_movedOneWindow :
    PacedStep env 100 60 (anchored, 1000) ⟨1060, .traded false movedOneWindow.trade⟩
      (movedOneWindow.desk, 1060) where
  step := {
    step := .buy (x := input 1060 10100000000) (eq_ok_acceptedValue (by decide +kernel))
    le_now := by decide
    clock := rfl }
  keeps := trivial
  spends := fun _ => by decide +kernel

theorem step_movedOpenWindow :
    ClockedStep env (movedOneWindow.desk, 1060) ⟨1060, .traded false movedOpenWindow.trade⟩
      (movedOpenWindow.desk, 1060) where
  step := .buy (x := input 1060 10201000000) (eq_ok_acceptedValue (by decide +kernel))
  le_now := by decide
  clock := rfl

end Sample

/-- The bound on a run of two trades that stays within it. -/
theorem traded_price_within_sample :
    (Sample.movedOpenWindow.trade.price.toNat : ℚ) ≤
      (10000000000 : UInt64).toNat * (1 + deviationStep 100) ^ (windowsBetween 1000 1060 60 + 1) :=
  (traded_price_within Sample.anchoredAt (.single Sample.step_movedOneWindow)
    Sample.step_movedOpenWindow).2

/-- A trade of 103.02 one window after an anchor of 100, with a step of one
percent: the bound for two windows is 102.01. -/
theorem traded_price_exceeds :
    AnchoredAt 100 60 10000000000 1000 (Sample.anchored, 1000) ∧
      ClockedRun Sample.env (Sample.anchored, 1000) [⟨1060, .traded false Sample.movedOnce.trade⟩]
        (Sample.movedOnce.desk, 1060) ∧
      ClockedStep Sample.env (Sample.movedOnce.desk, 1060)
        ⟨1060, .traded false Sample.movedTwice.trade⟩ (Sample.movedTwice.desk, 1060) ∧
      ¬ ((Sample.movedTwice.trade.price.toNat : ℚ) ≤
        (10000000000 : UInt64).toNat *
          (1 + deviationStep 100) ^ (windowsBetween 1000 1060 60 + 1)) := by
  refine ⟨Sample.anchoredAt, .single Sample.step_movedOnce, Sample.step_movedTwice, ?_⟩
  have hp : Sample.movedTwice.trade.price.toNat = 10302000000 := by decide +kernel
  have hk : windowsBetween 1000 1060 60 = 1 := by decide
  have hA : (10000000000 : UInt64).toNat = 10000000000 := by decide
  have hD : deviationStep 100 = 1 / 100 := by
    unfold deviationStep bps
    rw [show (100 : UInt16).toNat = 100 by decide]
    norm_num
  rw [hp, hk, hA, hD]
  norm_num

end IceMarkets.PegDesk
