import IceMarkets.Buyback.Cycle
import IceMarkets.Lib.Run

/-!
# IceMarkets.Buyback.Bounds

What the keepers and the route they forward can do, over runs: the rate they get never
falls below the first anchor's, what they leave unspent is bounded by the tolerance, and
the cycles are spaced.

`CycleEffect` says what an accepted cycle checked and did, whatever the programs it called
did to the work accounts. `BuybackRun` also has donations to the USDC account, sweeps out
of it and changes of parameters; the bounds hold between two such changes.
-/

namespace IceMarkets.Buyback

open Lts

/-! ### Rates -/

theorem toNat_min (a b : UInt64) : (min a b).toNat = min a.toNat b.toNat := by
  show (if a ≤ b then a else b).toNat = _
  split
  · next h => exact (Nat.min_eq_left (UInt64.le_iff_toNat_le.mp h)).symm
  · next h =>
      rw [UInt64.le_iff_toNat_le] at h
      omega

theorem toNat_max (a b : UInt64) : (max a b).toNat = max a.toNat b.toNat := by
  show (if a ≤ b then b else a).toNat = _
  split
  · next h => exact (Nat.max_eq_right (UInt64.le_iff_toNat_le.mp h)).symm
  · next h =>
      rw [UInt64.le_iff_toNat_le] at h
      omega

/-- A value times at most `bpsDenom`, over `bpsDenom`, is still a `u64`. -/
theorem ofNat_bps_toNat (a : UInt64) {b : Nat} (hb : b ≤ bpsDenom) :
    (UInt64.ofNat (a.toNat * b / bpsDenom)).toNat = a.toNat * b / bpsDenom := by
  have hlt := a.toNat_lt
  have hle : a.toNat * b / bpsDenom ≤ a.toNat :=
    Nat.div_le_of_le_mul (by rw [Nat.mul_comm bpsDenom]; exact Nat.mul_le_mul_left _ hb)
  rw [UInt64.toNat_ofNat', Nat.mod_eq_of_lt (hle.trans_lt hlt)]

theorem minRate_toNat (anchor : UInt64) (dev : UInt16) :
    (minRate anchor dev).toNat = anchor.toNat * (bpsDenom - dev.toNat) / bpsDenom :=
  ofNat_bps_toNat anchor (Nat.sub_le _ _)

theorem minSpend_toNat (usdcOut : UInt64) :
    (minSpend usdcOut).toNat = usdcOut.toNat * (bpsDenom - minSpendToleranceBps) / bpsDenom :=
  ofNat_bps_toNat usdcOut (Nat.sub_le _ _)

theorem minSpend_le (usdcOut : UInt64) : (minSpend usdcOut).toNat ≤ usdcOut.toNat := by
  rw [minSpend_toNat]
  have h : usdcOut.toNat * (bpsDenom - minSpendToleranceBps) ≤ bpsDenom * usdcOut.toNat := by
    rw [Nat.mul_comm]
    exact Nat.mul_le_mul_right _ (Nat.sub_le _ _)
  exact Nat.div_le_of_le_mul h

/-- A higher anchor asks for a higher rate. -/
theorem minRate_mono {a a' : UInt64} (h : a.toNat ≤ a'.toNat) (dev : UInt16) :
    (minRate a dev).toNat ≤ (minRate a' dev).toNat := by
  rw [minRate_toNat, minRate_toNat]
  exact Nat.div_le_div_right (Nat.mul_le_mul_right _ h)

theorem ratePerUsdc_eq_some {iceOut usdcIn rate : UInt64}
    (h : ratePerUsdc iceOut usdcIn = some rate) :
    rate.toNat = iceOut.toNat * usdcUnit / usdcIn.toNat := by
  unfold ratePerUsdc at h
  by_cases hzero : usdcIn = 0
  · rw [if_pos hzero] at h
    cases h
  · rw [if_neg hzero] at h
    obtain ⟨n, hn, h⟩ := Option.bind_eq_some_iff.mp h
    obtain ⟨-, rfl⟩ := checkedMul128_eq_some.mp hn
    exact toU64_eq_some.mp h

/-- The rate is rounded against the keeper. -/
theorem rate_mul_le {iceOut usdcIn rate : UInt64} (h : ratePerUsdc iceOut usdcIn = some rate) :
    usdcIn.toNat * rate.toNat ≤ iceOut.toNat * usdcUnit := by
  rw [ratePerUsdc_eq_some h]
  exact Nat.mul_div_le _ _

section NextAnchor

variable (anchor rate : UInt64) (moveBps : UInt16)

theorem le_nextAnchor : anchor.toNat ≤ (nextAnchor anchor rate moveBps).toNat := by
  unfold nextAnchor
  split
  · exact Nat.le_refl _
  · next hrate =>
      rw [UInt64.le_iff_toNat_le] at hrate
      have hlt := anchor.toNat_lt
      rw [toNat_min, saturatingAdd_toNat]
      unfold u64Max
      omega

/-- The anchor rises by at most `moveBps` of itself, or by 1. -/
theorem nextAnchor_le : (nextAnchor anchor rate moveBps).toNat ≤
    anchor.toNat + max 1 (anchor.toNat * moveBps.toNat / bpsDenom) := by
  unfold nextAnchor
  split
  · exact Nat.le_add_right _ _
  · have hmod := Nat.mod_le (anchor.toNat * moveBps.toNat / bpsDenom) (2 ^ 64)
    rw [toNat_min, saturatingAdd_toNat, toNat_max, UInt64.toNat_ofNat', UInt64.toNat_one]
    omega

/-- A raised anchor does not exceed the rate it was raised to. -/
theorem nextAnchor_le_rate (h : nextAnchor anchor rate moveBps ≠ anchor) :
    nextAnchor anchor rate moveBps ≤ rate := by
  unfold nextAnchor at h ⊢
  split at h
  · exact absurd rfl h
  · next hrate =>
      rw [if_neg hrate, UInt64.le_iff_toNat_le, toNat_min]
      exact Nat.min_le_right _ _

end NextAnchor

/-! ### What a cycle did -/

/-- What an accepted cycle checked and did. -/
structure CycleEffect (s : BuybackState) (x : CycleInput) (out : CycleOutcome) : Prop where
  interval : (s.minIntervalSecs.toNat : Int) ≤ x.now - s.lastCycleTs
  usdc : out.work.usdc.amount.toNat + out.event.usdcOut.toNat =
    x.work.usdc.amount.toNat + out.sold.toNat
  spent_le : out.event.usdcOut.toNat ≤ s.maxPerCycleUsdc.toNat
  min_spend : (minSpend out.sold).toNat ≤ out.event.usdcOut.toNat
  rate : ratePerUsdc out.event.iceBurned out.event.usdcOut = some out.event.rate
  min_rate : (minRate s.icePerUsdcAnchor s.maxDeviationBps).toNat ≤ out.event.rate.toNat
  anchor : out.event.anchor = nextAnchor s.icePerUsdcAnchor out.event.rate s.anchorMoveBps
  totalUsdcOut : out.state.totalUsdcOut.toNat = s.totalUsdcOut.toNat + out.event.usdcOut.toNat
  totalIceBurned : out.state.totalIceBurned.toNat =
    s.totalIceBurned.toNat + out.event.iceBurned.toNat
  state : out.state = { s with
    icePerUsdcAnchor := out.event.anchor, lastCycleTs := x.now
    totalUsdcOut := out.state.totalUsdcOut, totalIceBurned := out.state.totalIceBurned }

theorem handleConvertAndBurn_ok {cpis : Cpis} {auth : Pubkey} {s : BuybackState} {x : CycleInput}
    {out : CycleOutcome} (h : handleConvertAndBurn cpis auth s x = .ok out) :
    CycleEffect s x out := by
  unfold handleConvertAndBurn at h
  obtain ⟨-, h⟩ := require_bind_eq_ok.mp h
  obtain ⟨-, h⟩ := require_bind_eq_ok.mp h
  obtain ⟨-, h⟩ := require_bind_eq_ok.mp h
  obtain ⟨-, h⟩ := require_bind_eq_ok.mp h
  obtain ⟨-, h⟩ := require_bind_eq_ok.mp h
  obtain ⟨hinterval, h⟩ := require_bind_eq_ok.mp h
  obtain ⟨-, h⟩ := require_bind_eq_ok.mp h
  obtain ⟨w₁, -, h⟩ := bind_eq_ok.mp h
  obtain ⟨-, h⟩ := require_bind_eq_ok.mp h
  obtain ⟨w₂, -, h⟩ := bind_eq_ok.mp h
  obtain ⟨⟨hsold, -⟩, h⟩ := require_bind_eq_ok.mp h
  obtain ⟨-, h⟩ := require_bind_eq_ok.mp h
  obtain ⟨w₃, -, h⟩ := bind_eq_ok.mp h
  obtain ⟨hspend, h⟩ := require_bind_eq_ok.mp h
  obtain ⟨-, h⟩ := require_bind_eq_ok.mp h
  obtain ⟨hcap, h⟩ := require_bind_eq_ok.mp h
  obtain ⟨-, h⟩ := require_bind_eq_ok.mp h
  obtain ⟨-, h⟩ := require_bind_eq_ok.mp h
  obtain ⟨rate, hrate, h⟩ := okOr_bind_eq_ok.mp h
  obtain ⟨-, h⟩ := require_bind_eq_ok.mp h
  obtain ⟨hmin, h⟩ := require_bind_eq_ok.mp h
  obtain ⟨⟨iceMint, ice⟩, -, h⟩ := bind_eq_ok.mp h
  obtain ⟨totalUsdcOut, husdc, h⟩ := okOr_bind_eq_ok.mp h
  obtain ⟨totalIceBurned, hice, h⟩ := okOr_bind_eq_ok.mp h
  cases h
  rw [UInt64.lt_iff_toNat_lt, saturatingSub_toNat, UInt64.toNat_zero] at hsold
  rw [UInt64.le_iff_toNat_le, toNat_max, UInt64.toNat_one] at hspend
  rw [UInt64.le_iff_toNat_le] at hcap hmin
  have hspent := (Nat.le_max_right _ _).trans hspend
  rw [saturatingSub_toNat] at hspent
  exact {
    interval := by
      -- a difference beyond the range is beyond any interval
      have hlt := s.minIntervalSecs.toNat_lt
      unfold satSubI64 clampI64 i64Max i64Min at hinterval
      omega
    usdc := by
      -- both differences are exact: something was sold, and something spent
      dsimp only
      rw [saturatingSub_toNat, saturatingSub_toNat]
      omega
    spent_le := hcap
    min_spend := (Nat.le_max_left _ _).trans hspend
    rate := hrate
    min_rate := hmin
    anchor := rfl
    totalUsdcOut := checkedAdd_eq_some.mp husdc
    totalIceBurned := checkedAdd_eq_some.mp hice
    state := rfl }

/-! ### Runs -/

/-- The program's state and its USDC work account. -/
structure Program where
  state : BuybackState
  usdc : TokenAccount

/-- An accepted cycle: when, what its sell produced and its event. -/
structure Cycle where
  now : Int
  sold : UInt64
  event : BuybackEvent

inductive BuybackAct
  | cycle (c : Cycle)
  | donated (amount : UInt64)
  | swept (amount : UInt64)
  | setParams

/-- An accepted instruction, or a donation to the USDC account. The programs a cycle calls,
and the other accounts it is given, are any. -/
inductive BuybackStep (s : Program) : BuybackAct → Program → Prop
  | cycle {cpis : Cpis} {auth : Pubkey} {x : CycleInput} {out : CycleOutcome}
      (husdc : x.work.usdc = s.usdc) (h : handleConvertAndBurn cpis auth s.state x = .ok out) :
      BuybackStep s (.cycle ⟨x.now, out.sold, out.event⟩)
        { state := out.state, usdc := out.work.usdc }
  | donate {amount : UInt64} {usdc : TokenAccount}
      (h : usdc.amount.toNat = s.usdc.amount.toNat + amount.toNat) :
      BuybackStep s (.donated amount) { s with usdc }
  | sweep {auth admin : Pubkey} {destination destination' usdc : TokenAccount} {amount : UInt64}
      (h : handleSweepWorkAccount s.state auth admin s.usdc destination amount =
        .ok (usdc, destination')) :
      BuybackStep s (.swept amount) { s with usdc }
  | setParams {admin : Pubkey} {args : SetParamsArgs} {state : BuybackState}
      (h : handleSetParams s.state admin args = .ok state) :
      BuybackStep s .setParams { s with state }

/-- A run of the program. -/
abbrev BuybackRun : Program → List BuybackAct → Program → Prop := Run BuybackStep

namespace BuybackAct

/-- No parameter changes. -/
def Keeps : BuybackAct → Prop
  | setParams => False
  | _ => True

def cycle? : BuybackAct → Option Cycle
  | cycle c => some c
  | _ => none

/-- What an action may add to the USDC account: a donation, or what the route may leave of
a sell. -/
def residue : BuybackAct → Nat
  | cycle c => c.sold.toNat - (minSpend c.sold).toNat
  | donated amount => amount.toNat
  | _ => 0

def spent : BuybackAct → Nat
  | cycle c => c.event.usdcOut.toNat
  | _ => 0

def burned : BuybackAct → Nat
  | cycle c => c.event.iceBurned.toNat
  | _ => 0

end BuybackAct

/-- The cycles of a run. -/
def cycles (tr : List BuybackAct) : List Cycle := tr.filterMap BuybackAct.cycle?

/-- What the parameters say and what the bounds are about. -/
structure SameParams (s s' : BuybackState) : Prop where
  maxDeviationBps : s'.maxDeviationBps = s.maxDeviationBps
  minIntervalSecs : s'.minIntervalSecs = s.minIntervalSecs

section Steps

variable {s s' : Program} {act : BuybackAct}

theorem handleSweepWorkAccount_ok {state : BuybackState} {auth admin : Pubkey}
    {source destination source' destination' : TokenAccount} {amount : UInt64}
    (h : handleSweepWorkAccount state auth admin source destination amount =
      .ok (source', destination')) : source'.amount.toNat ≤ source.amount.toNat := by
  unfold handleSweepWorkAccount at h
  obtain ⟨-, h⟩ := require_bind_eq_ok.mp h
  obtain ⟨-, h⟩ := require_bind_eq_ok.mp h
  obtain ⟨-, h⟩ := require_bind_eq_ok.mp h
  obtain ⟨hsource, -⟩ := Token.transfer_eq_ok (liftToken_eq_ok.mp h)
  omega

/-- The breaker is armed and every share is a part of the whole: no subtraction from
`BPS_DENOM` borrows. -/
structure BuybackState.Armed (s : BuybackState) : Prop where
  reserveBufferBps : s.reserveBufferBps.toNat < bpsDenom
  maxDeviationBps : s.maxDeviationBps.toNat < bpsDenom
  anchorMoveBps : s.anchorMoveBps.toNat < bpsDenom
  anchor_pos : 0 < s.icePerUsdcAnchor.toNat
  cap_pos : 0 < s.maxPerCycleUsdc.toNat

theorem handleInitialize_armed {upgradeAuthority : Option Pubkey} {admin : Pubkey}
    {args : InitializeArgs} {state : BuybackState}
    (h : handleInitialize upgradeAuthority admin args = .ok state) : state.Armed := by
  unfold handleInitialize at h
  obtain ⟨-, h⟩ := require_bind_eq_ok.mp h
  obtain ⟨hbuffer, h⟩ := require_bind_eq_ok.mp h
  obtain ⟨hdev, h⟩ := require_bind_eq_ok.mp h
  obtain ⟨hmove, h⟩ := require_bind_eq_ok.mp h
  obtain ⟨hanchor, h⟩ := require_bind_eq_ok.mp h
  obtain ⟨hcap, h⟩ := require_bind_eq_ok.mp h
  cases h
  exact ⟨hbuffer, hdev, hmove, UInt64.lt_iff_toNat_lt.mp hanchor, UInt64.lt_iff_toNat_lt.mp hcap⟩

/-- A parameter left as it is or checked. -/
theorem getD_of_forall_mem {α : Type} {P : α → Prop} {o : Option α} {a : α} (h : ∀ v ∈ o, P v)
    (ha : P a) : P (o.getD a) := by
  cases o with
  | none => exact ha
  | some v => exact h v rfl

theorem BuybackStep.armed (h : BuybackStep s act s') (hs : s.state.Armed) : s'.state.Armed := by
  cases h with
  | cycle _ h =>
      have heff := handleConvertAndBurn_ok h
      have hle := le_nextAnchor s.state.icePerUsdcAnchor
      rw [heff.state, heff.anchor]
      exact ⟨hs.reserveBufferBps, hs.maxDeviationBps, hs.anchorMoveBps,
        hs.anchor_pos.trans_le (hle _ _), hs.cap_pos⟩
  | donate _ => exact hs
  | sweep _ => exact hs
  | setParams h =>
      obtain ⟨-, h⟩ := require_bind_eq_ok.mp h
      obtain ⟨hbuffer, h⟩ := require_bind_eq_ok.mp h
      obtain ⟨hcap, h⟩ := require_bind_eq_ok.mp h
      obtain ⟨hdev, h⟩ := require_bind_eq_ok.mp h
      obtain ⟨hmove, h⟩ := require_bind_eq_ok.mp h
      obtain ⟨hanchor, h⟩ := require_bind_eq_ok.mp h
      obtain ⟨-, h⟩ := require_bind_eq_ok.mp h
      cases h
      exact {
        reserveBufferBps := getD_of_forall_mem (P := fun v : UInt16 => v.toNat < bpsDenom) hbuffer
          hs.reserveBufferBps
        maxDeviationBps := getD_of_forall_mem (P := fun v : UInt16 => v.toNat < bpsDenom) hdev
          hs.maxDeviationBps
        anchorMoveBps := getD_of_forall_mem (P := fun v : UInt16 => v.toNat < bpsDenom) hmove
          hs.anchorMoveBps
        anchor_pos := getD_of_forall_mem (P := fun v : UInt64 => 0 < v.toNat)
          (fun v hv => UInt64.lt_iff_toNat_lt.mp (hanchor v hv)) hs.anchor_pos
        cap_pos := getD_of_forall_mem (P := fun v : UInt64 => 0 < v.toNat)
          (fun v hv => UInt64.lt_iff_toNat_lt.mp (hcap v hv)) hs.cap_pos }

/-- Every reachable state is armed. -/
theorem BuybackRun.armed {upgradeAuthority : Option Pubkey} {admin : Pubkey} {args : InitializeArgs}
    {tr : List BuybackAct}
    (hinit : handleInitialize upgradeAuthority admin args = .ok s.state)
    (h : BuybackRun s tr s') : s'.state.Armed :=
  h.invariant (I := fun s => s.state.Armed) (fun _ _ _ hstep hs => hstep.armed hs)
    (handleInitialize_armed hinit)

/-- What one step without new parameters does to everything the bounds are about. -/
structure StepBounds (s : Program) (act : BuybackAct) (s' : Program) : Prop where
  params : SameParams s.state s'.state
  anchor_le : s.state.icePerUsdcAnchor.toNat ≤ s'.state.icePerUsdcAnchor.toNat
  burned : act.spent * (minRate s.state.icePerUsdcAnchor s.state.maxDeviationBps).toNat ≤
    act.burned * usdcUnit
  totalUsdcOut : s'.state.totalUsdcOut.toNat = s.state.totalUsdcOut.toNat + act.spent
  totalIceBurned : s'.state.totalIceBurned.toNat = s.state.totalIceBurned.toNat + act.burned
  balance : s'.usdc.amount.toNat ≤ s.usdc.amount.toNat + act.residue
  lastCycleTs : s'.state.lastCycleTs = (act.cycle?.map (·.now)).getD s.state.lastCycleTs
  interval : ∀ c ∈ act.cycle?, s.state.lastCycleTs + s.state.minIntervalSecs.toNat ≤ c.now

theorem BuybackStep.bounds (h : BuybackStep s act s') (hact : act.Keeps) : StepBounds s act s' := by
  cases h with
  | @cycle cpis auth x out husdc h =>
      have heff := handleConvertAndBurn_ok h
      have hstate := heff.state
      have hbalance := heff.usdc
      have hmin := heff.min_spend
      have hinterval := heff.interval
      rw [husdc] at hbalance
      exact {
        params := ⟨by rw [hstate], by rw [hstate]⟩
        anchor_le := by
          rw [hstate, heff.anchor]
          exact le_nextAnchor ..
        burned := (Nat.mul_le_mul_left _ heff.min_rate).trans (rate_mul_le heff.rate)
        totalUsdcOut := heff.totalUsdcOut
        totalIceBurned := heff.totalIceBurned
        balance := by
          have hle := minSpend_le out.sold
          simp only [BuybackAct.residue]
          omega
        lastCycleTs := by rw [hstate]; rfl
        interval := by
          intro c hc
          cases hc
          dsimp only
          omega }
  | donate h =>
      exact ⟨⟨rfl, rfl⟩, le_refl _, by simp [BuybackAct.spent], by simp [BuybackAct.spent],
        by simp [BuybackAct.burned], h.le, rfl, nofun⟩
  | sweep h =>
      exact ⟨⟨rfl, rfl⟩, le_refl _, by simp [BuybackAct.spent], by simp [BuybackAct.spent],
        by simp [BuybackAct.burned], handleSweepWorkAccount_ok h, rfl, nofun⟩
  | setParams _ => exact absurd hact not_false

end Steps

/-! ### Bounds -/

/-- What a run without new parameters does. -/
structure RunBounds (s : Program) (tr : List BuybackAct) (s' : Program) : Prop where
  params : SameParams s.state s'.state
  anchor_le : s.state.icePerUsdcAnchor.toNat ≤ s'.state.icePerUsdcAnchor.toNat
  burned : (tr.map (·.spent)).sum *
    (minRate s.state.icePerUsdcAnchor s.state.maxDeviationBps).toNat ≤
    (tr.map (·.burned)).sum * usdcUnit
  totalUsdcOut : s'.state.totalUsdcOut.toNat = s.state.totalUsdcOut.toNat + (tr.map (·.spent)).sum
  totalIceBurned : s'.state.totalIceBurned.toNat =
    s.state.totalIceBurned.toNat + (tr.map (·.burned)).sum
  balance : s'.usdc.amount.toNat ≤ s.usdc.amount.toNat + (tr.map (·.residue)).sum
  after : ∀ c ∈ cycles tr, s.state.lastCycleTs + s.state.minIntervalSecs.toNat ≤ c.now
  spaced : (cycles tr).Pairwise fun c d => (s.state.minIntervalSecs.toNat : Int) ≤ d.now - c.now

theorem BuybackRun.bounds {s s' : Program} {tr : List BuybackAct} (h : BuybackRun s tr s')
    (htr : ∀ act ∈ tr, act.Keeps) : RunBounds s tr s' := by
  induction h with
  | nil s => exact ⟨⟨rfl, rfl⟩, Nat.le_refl _, by simp, by simp, by simp, by simp, nofun, .nil⟩
  | @cons s t s' act tr head tail ih =>
      have hstep := head.bounds (htr act List.mem_cons_self)
      have hrun := ih fun a ha => htr a (List.mem_cons_of_mem _ ha)
      obtain ⟨hdev, hsecs⟩ := hstep.params
      have hafter := hrun.after
      have hspaced := hrun.spaced
      rw [hsecs] at hafter hspaced
      have hcycles : cycles (act :: tr) = act.cycle?.toList ++ cycles tr := by
        cases hact : act.cycle? <;> simp [cycles, hact]
      exact {
        params := ⟨hrun.params.maxDeviationBps.trans hdev, hrun.params.minIntervalSecs.trans hsecs⟩
        anchor_le := hstep.anchor_le.trans hrun.anchor_le
        burned := by
          -- the later cycles start from a higher anchor
          have hmono := minRate_mono hstep.anchor_le s.state.maxDeviationBps
          have htail := hrun.burned
          rw [hdev] at htail
          have htail' := (Nat.mul_le_mul_left (tr.map (·.spent)).sum hmono).trans htail
          have hhead := hstep.burned
          simp only [List.map_cons, List.sum_cons, Nat.add_mul]
          omega
        totalUsdcOut := by
          rw [hrun.totalUsdcOut, hstep.totalUsdcOut, List.map_cons, List.sum_cons, Nat.add_assoc]
        totalIceBurned := by
          rw [hrun.totalIceBurned, hstep.totalIceBurned, List.map_cons, List.sum_cons,
            Nat.add_assoc]
        balance := by
          have hhead := hstep.balance
          have htail := hrun.balance
          simp only [List.map_cons, List.sum_cons]
          omega
        after := by
          intro c hc
          rw [hcycles, List.mem_append, Option.mem_toList] at hc
          rcases hc with hc | hc
          · exact hstep.interval c hc
          · have hle := hafter c hc
            rw [hstep.lastCycleTs] at hle
            cases hact : act.cycle? with
            | none => simpa [hact] using hle
            | some d =>
                have hd := hstep.interval d hact
                simp only [hact, Option.map_some, Option.getD_some] at hle
                omega
        spaced := by
          rw [hcycles, List.pairwise_append]
          refine ⟨?_, hspaced, ?_⟩
          · cases act.cycle? <;> simp
          · intro c hc d hd
            have hle := hafter d hd
            rw [hstep.lastCycleTs, Option.mem_toList.mp hc] at hle
            simp only [Option.map_some, Option.getD_some] at hle
            omega }

/-- An accepted cycle raises the anchor by at most `anchor_move_bps` of itself and never above
the rate it got, and spends at most the cap and at least what the tolerance leaves of its
proceeds. -/
structure CycleBounds (s : BuybackState) (c : Cycle) (s' : BuybackState) : Prop where
  rate : c.event.rate.toNat = c.event.iceBurned.toNat * usdcUnit / c.event.usdcOut.toNat
  anchor_le : s.icePerUsdcAnchor.toNat ≤ s'.icePerUsdcAnchor.toNat
  anchor_raise : s'.icePerUsdcAnchor.toNat ≤
    s.icePerUsdcAnchor.toNat + max 1 (s.icePerUsdcAnchor.toNat * s.anchorMoveBps.toNat / bpsDenom)
  anchor_rate : s'.icePerUsdcAnchor ≠ s.icePerUsdcAnchor → s'.icePerUsdcAnchor ≤ c.event.rate
  spent_le : c.event.usdcOut.toNat ≤ s.maxPerCycleUsdc.toNat
  spent_ge : c.sold.toNat * (bpsDenom - minSpendToleranceBps) / bpsDenom ≤ c.event.usdcOut.toNat
  interval : (s.minIntervalSecs.toNat : Int) ≤ c.now - s.lastCycleTs

theorem CycleEffect.bounds {s : BuybackState} {x : CycleInput} {out : CycleOutcome}
    (h : CycleEffect s x out) : CycleBounds s ⟨x.now, out.sold, out.event⟩ out.state := by
  have hanchor : out.state.icePerUsdcAnchor =
      nextAnchor s.icePerUsdcAnchor out.event.rate s.anchorMoveBps := by
    rw [h.state, ← h.anchor]
  have hmin := h.min_spend
  rw [minSpend_toNat] at hmin
  exact {
    rate := ratePerUsdc_eq_some h.rate
    anchor_le := by rw [hanchor]; exact le_nextAnchor ..
    anchor_raise := by rw [hanchor]; exact nextAnchor_le ..
    anchor_rate := by rw [hanchor]; exact nextAnchor_le_rate _ _ _
    spent_le := h.spent_le
    spent_ge := hmin
    interval := h.interval }

namespace Sample

def state : BuybackState where
  admin := Bytes32.fill 3
  keepers := Vector.replicate maxKeepers Pubkey.default
  keeperCount := 0
  reserveBufferBps := 200
  maxPerCycleUsdc := 100000000
  minIntervalSecs := 600
  lastCycleTs := 0
  icePerUsdcAnchor := 200000000
  maxDeviationBps := 500
  anchorMoveBps := 200
  paused := false
  totalUsdcOut := 0
  totalIceBurned := 0

def account (mint : UInt8) (amount : UInt64) : TokenAccount :=
  { mint := Bytes32.fill mint, owner := Bytes32.fill 1, amount }

def credit (a : TokenAccount) (amount : UInt64) : TokenAccount :=
  { a with amount := a.amount + amount }

/-- A desk that pays two USDC a coin, and a route that keeps one unit in a thousand and pays
204 ICE for each USDC spent. -/
def cpis : Cpis where
  withdrawForBuyback := fun amount w => .ok { w with coin := credit w.coin amount }
  pegDeskSell := fun amount _ w =>
    .ok { w with coin := { w.coin with amount := w.coin.amount - amount }
                 usdc := credit w.usdc (2 * amount) }
  invokeRoute := fun _ w =>
    let spent := w.usdc.amount - w.usdc.amount / 1000
    .ok { w with usdc := { w.usdc with amount := w.usdc.amount / 1000 }
                 ice := credit w.ice (204 * spent) }

def input (now : Int) (usdc : TokenAccount) : CycleInput where
  now := now
  keeper := Bytes32.fill 3
  coin := Bytes32.fill 4
  coinAmount := 5000000
  minUsdcOut := 0
  minIceOut := 0
  routeData := []
  buybackVault := 1000000000
  work := { coin := account 4 0, usdc, ice := account 6 0 }
  iceMint := { supply := 1000000000000 }

def first : CycleOutcome :=
  acceptedValue (handleConvertAndBurn cpis (Bytes32.fill 1) state (input 1000 (account 5 0)))
    (by decide +kernel)

def second : CycleOutcome :=
  acceptedValue (handleConvertAndBurn cpis (Bytes32.fill 1) first.state
    (input 1600 first.work.usdc))
    (by decide +kernel)

end Sample

end IceMarkets.Buyback
