import IceMarkets.PegDesk.Admission

/-!
# IceMarkets.PegDesk.Privilege

What keepers and ordinary users can change, over runs in which neither the admin nor a
proposed one signs.

Such a run leaves the config as it is, except that it may pause; the terms of every
commodity, except its status and the Pyth accounts a keeper rotates; and the bounds of
every posted price (`Frame`). A commodity that is Halted stays so, and neither it nor
any commodity of a paused desk trades (`privilege_frame`).

The bounds need an invariant: the first post claims a price account by the default key
stored in it, so a claimed one must never store that key again (`Program.Claimed`).
-/

namespace IceMarkets.PegDesk

open Lts

/-! ### Frames -/

/-- `c'` differs from `c` at most in its status, its Pyth update accounts and the running state
a trade updates. -/
def Commodity.SameParams (c c' : Commodity) : Prop :=
  { c with status := c'.status, feedAccount := c'.feedAccount
           fxFeedAccount := c'.fxFeedAccount }.SameTerms c'

/-- The bounds a keeper's posts obey. -/
structure KeeperPrice.SameBounds (kp kp' : KeeperPrice) : Prop where
  maxMoveBps : kp'.maxMoveBps = kp.maxMoveBps
  minInterval : kp'.minInterval = kp.minInterval

/-- What becomes of one commodity's accounts. -/
structure MarketFrame (m m' : Market) : Prop where
  params : m.commodity.SameParams m'.commodity
  halted : m.commodity.status = statusHalted → m'.commodity.status = statusHalted
  bounds : ∀ kp ∈ m.keeperPrice, ∃ kp' ∈ m'.keeperPrice, kp.SameBounds kp'

/-- What becomes of the program's accounts. -/
structure Frame (s s' : Program) : Prop where
  config : s'.config = { s.config with globalPause := s'.config.globalPause }
  paused : s.config.globalPause = true → s'.config.globalPause = true
  markets : ∀ key m, s.markets key = some m → ∃ m', s'.markets key = some m' ∧ MarketFrame m m'
  absent : ∀ key, s.markets key = none → s'.markets key = none

/-- A commodity on which nothing may trade. -/
def Program.Stopped (s : Program) (key : Pubkey) : Prop :=
  s.config.globalPause = true ∨
    ∃ m, s.markets key = some m ∧ m.commodity.status = statusHalted

/-- A step signed by neither the admin nor the proposed one. -/
structure UnprivilegedStep (env : Env) (s : Program) (e : Signed) (s' : Program) : Prop where
  step : ProgramStep env s e s'
  not_admin : e.signer ≠ s.config.admin
  not_pending : e.signer ≠ s.config.pendingAdmin

/-- A run of the program without its admin. -/
abbrev UnprivilegedRun (env : Env) : Program → List Signed → Program → Prop :=
  Run (UnprivilegedStep env)

/-- Every posted price names its commodity, and no commodity is at the default address: a
commodity's address is derived, and the default one is the System Program's. -/
structure Program.Claimed (s : Program) : Prop where
  named : ∀ key m kp, s.markets key = some m → m.keeperPrice = some kp → kp.commodity = key
  not_default : s.markets Pubkey.default = none

/-- Only the cached balance is written. -/
theorem Commodity.SameTerms.of_cached {c c' : Commodity} {cached : UInt64}
    (h : c' = { c with reserveBalanceCached := cached }) : c.SameTerms c' := by
  rw [h]
  rfl

namespace Commodity.SameParams

variable {c c' c'' : Commodity}

theorem refl (c : Commodity) : SameParams c c := rfl

theorem trans (h : SameParams c c') (h' : SameParams c' c'') : SameParams c c'' := by
  unfold SameParams SameTerms at *
  rw [h', h]

theorem of_sameTerms (h : c.SameTerms c') : SameParams c c' := by
  unfold SameParams SameTerms at *
  rw [h]

end Commodity.SameParams

namespace KeeperPrice.SameBounds

variable {kp kp' kp'' : KeeperPrice}

theorem refl (kp : KeeperPrice) : SameBounds kp kp := ⟨rfl, rfl⟩

theorem trans (h : SameBounds kp kp') (h' : SameBounds kp' kp'') : SameBounds kp kp'' :=
  ⟨h'.maxMoveBps.trans h.maxMoveBps, h'.minInterval.trans h.minInterval⟩

end KeeperPrice.SameBounds

namespace MarketFrame

variable {m m' m'' : Market}

theorem refl (m : Market) : MarketFrame m m :=
  ⟨.refl _, fun h => h, fun kp hkp => ⟨kp, hkp, .refl kp⟩⟩

theorem trans (h : MarketFrame m m') (h' : MarketFrame m' m'') : MarketFrame m m'' := by
  refine ⟨h.params.trans h'.params, fun hm => h'.halted (h.halted hm), ?_⟩
  intro kp hkp
  obtain ⟨kp', hkp', hsame⟩ := h.bounds kp hkp
  obtain ⟨kp'', hkp'', hsame'⟩ := h'.bounds kp' hkp'
  exact ⟨kp'', hkp'', hsame.trans hsame'⟩

/-- A commodity whose terms stay, with the same posted price. -/
theorem of_sameTerms (h : m.commodity.SameTerms m'.commodity)
    (hkp : m'.keeperPrice = m.keeperPrice) : MarketFrame m m' := by
  have hstatus : m'.commodity.status = m.commodity.status := by rw [h]
  refine ⟨.of_sameTerms h, fun hm => hstatus.trans hm, ?_⟩
  rw [hkp]
  exact fun kp h => ⟨kp, h, .refl kp⟩

end MarketFrame

namespace Frame

variable {s s' s'' : Program}

theorem refl (s : Program) : Frame s s :=
  ⟨rfl, fun h => h, fun _ m hm => ⟨m, hm, .refl m⟩, fun _ h => h⟩

theorem trans (h : Frame s s') (h' : Frame s' s'') : Frame s s'' := by
  refine ⟨?_, fun hp => h'.paused (h.paused hp), ?_,
    fun key hnone => h'.absent _ (h.absent _ hnone)⟩
  · rw [h'.config, h.config]
  · intro key m hm
    obtain ⟨m', hm', hframe⟩ := h.markets key m hm
    obtain ⟨m'', hm'', hframe'⟩ := h'.markets key m' hm'
    exact ⟨m'', hm'', hframe.trans hframe'⟩

/-- Writing one commodity's accounts. -/
theorem put {key : Pubkey} {m m' : Market} (hm : s.markets key = some m) (h : MarketFrame m m') :
    Frame s (s.put key m') := by
  refine ⟨rfl, fun h => h, ?_, ?_⟩
  · intro key' m₁ hm₁
    by_cases hkey : key' = key
    · subst hkey
      rw [hm] at hm₁
      cases hm₁
      exact ⟨m', s.put_markets_self _ _, h⟩
    · exact ⟨m₁, (s.put_markets_ne hkey m').trans hm₁, .refl m₁⟩
  · intro key' hnone
    have hkey : key' ≠ key := by
      intro heq
      rw [heq, hm] at hnone
      cases hnone
    rw [s.put_markets_ne hkey]
    exact hnone

theorem stopped (h : Frame s s') {key : Pubkey} (hs : s.Stopped key) : s'.Stopped key := by
  rcases hs with hp | ⟨m, hm, hhalted⟩
  · exact Or.inl (h.paused hp)
  · obtain ⟨m', hm', hframe⟩ := h.markets key m hm
    exact Or.inr ⟨m', hm', hframe.halted hhalted⟩

end Frame

/-! ### What each instruction asks of its signer -/

section Signer

variable {env : Env} {s : Program} {config config' : GlobalConfig} {signer key : Pubkey}
  {c c' : Commodity}

theorem requireAdmin_ok {u : Unit} (h : requireAdmin config signer = .ok u) :
    signer = config.admin := by
  have hadmin := require_eq_ok.mp h
  simp only [GlobalConfig.isAdmin, decide_eq_true_eq] at hadmin
  exact hadmin.symm

/-- Without the admin, only a pause changes the config. -/
theorem Configures.paused (h : Configures config signer config') (hadmin : signer ≠ config.admin)
    (hpending : signer ≠ config.pendingAdmin) : config' = { config with globalPause := true } := by
  cases h with
  | setKeepers h => exact absurd (require_bind_eq_ok.mp h).1.symm hadmin
  | proposeAdmin h => exact absurd (require_bind_eq_ok.mp h).1.symm hadmin
  | acceptAdmin h => exact absurd (require_bind_eq_ok.mp h).1.symm hpending
  | @setGlobalPause paused h =>
      unfold handleSetGlobalPause at h
      split at h
      · next hpaused =>
          obtain ⟨_, -, h⟩ := bind_eq_ok.mp h
          cases h
          rw [hpaused]
      · obtain ⟨_, hreq, -⟩ := bind_eq_ok.mp h
        exact absurd (requireAdmin_ok hreq) hadmin
  | setRedeemCapExempt h => exact absurd (require_bind_eq_ok.mp h).1.symm hadmin

/-- Without the admin, a commodity's Pyth accounts and its status may change, and Halted is
not left. -/
theorem Reconfigures.sameParams (h : Reconfigures env s signer key c c')
    (hadmin : signer ≠ s.config.admin) :
    c.SameParams c' ∧ (c.status = statusHalted → c'.status = statusHalted) := by
  cases h with
  | setCommodityParams h =>
      obtain ⟨_, hreq, -⟩ := bind_eq_ok.mp h
      exact absurd (requireAdmin_ok hreq) hadmin
  | setFeedAccount h =>
      obtain ⟨-, -, h⟩ := bind_eq_ok.mp h
      cases h
      exact ⟨rfl, fun h => h⟩
  | clearPriceAnchor h =>
      obtain ⟨_, hreq, -⟩ := bind_eq_ok.mp h
      exact absurd (requireAdmin_ok hreq) hadmin
  | setStatus h =>
      obtain ⟨-, -, h⟩ := bind_eq_ok.mp h
      obtain ⟨-, h⟩ := require_bind_eq_ok.mp h
      obtain ⟨-, h⟩ := require_bind_eq_ok.mp h
      obtain ⟨hmove, h⟩ := require_bind_eq_ok.mp h
      cases h
      refine ⟨rfl, ?_⟩
      intro hhalted
      -- of the transitions a keeper may make, two from Halted lead to Halted
      rcases hmove with h | h | ⟨h, -⟩ | ⟨h, -⟩ | h
      · simp only [GlobalConfig.isAdmin, decide_eq_true_eq] at h
        exact absurd h.symm hadmin
      · exact h.symm.trans hhalted
      · rw [hhalted] at h
        cases h
      · rw [hhalted] at h
        cases h
      · exact h
  | setIndexLegs _ h =>
      obtain ⟨_, hreq, -⟩ := bind_eq_ok.mp h
      exact absurd (requireAdmin_ok hreq) hadmin

/-- A claim keeps the bounds of an account that is not new. -/
theorem claimKeeperPrice_bounds {kp kp' : KeeperPrice} (h : claimKeeperPrice kp key = .ok kp')
    (hold : kp.commodity ≠ Pubkey.default) : kp.SameBounds kp' := by
  unfold claimKeeperPrice at h
  rw [if_neg hold] at h
  obtain ⟨-, h⟩ := require_bind_eq_ok.mp h
  cases h
  exact .refl kp

/-- A post keeps the bounds of an account that is not new. -/
theorem handleKeeperUpdatePrice_bounds {kp kp' : KeeperPrice} {oracleKind : UInt8}
    {x : Post} {ev : PriceUpdated}
    (h : handleKeeperUpdatePrice config key oracleKind (some kp) x = .ok (kp', ev))
    (hold : kp.commodity ≠ Pubkey.default) : kp.SameBounds kp' := by
  obtain ⟨kp₁, kp₂, hclaim, -, -, -, heq, hkp₂⟩ :=
    KeeperStep.inv ⟨config, oracleKind, kp', ev, h, rfl⟩
  cases heq
  subst hkp₂
  obtain ⟨hmove, hinterval⟩ := claimKeeperPrice_bounds hclaim hold
  exact ⟨hmove, hinterval⟩

end Signer

/-! ### Runs -/

section Runs

variable {env : Env} {s s' : Program} {e : Signed} {tr : List Signed}

/-- Writing a claimed price at a listed commodity keeps every price claimed. -/
theorem Program.Claimed.put {key : Pubkey} {m m' : Market} (h : s.Claimed)
    (hm : s.markets key = some m) (hkp : ∀ kp, m'.keeperPrice = some kp → kp.commodity = key) :
    (s.put key m').Claimed := by
  refine ⟨Program.Named.put h.named hkp, ?_⟩
  have hkey : Pubkey.default ≠ key := by
    intro heq
    rw [← heq, h.not_default] at hm
    cases hm
  rw [s.put_markets_ne hkey]
  exact h.not_default

/-- Without the admin, a step keeps the frame. -/
theorem UnprivilegedStep.frame (h : UnprivilegedStep env s e s') (hclaimed : s.Claimed) :
    Frame s s' ∧ s'.Claimed := by
  obtain ⟨hstep, hadmin, hpending⟩ := h
  have hnamed : ∀ {key : Pubkey} {m : Market}, s.markets key = some m →
      ∀ kp, m.keeperPrice = some kp → kp.commodity = key := by
    intro key m hm kp hkp
    exact hclaimed.named key m kp hm hkp
  -- most steps leave the posted price
  have hsame : ∀ {key : Pubkey} {m m' : Market}, s.markets key = some m → MarketFrame m m' →
      m'.keeperPrice = m.keeperPrice → Frame s (s.put key m') ∧ (s.put key m').Claimed := by
    intro key m m' hm hframe hkp
    refine ⟨.put hm hframe, hclaimed.put hm ?_⟩
    rw [hkp]
    exact hnamed hm
  cases hstep with
  | trade hm _ h =>
      obtain ⟨q, -, hmarks⟩ := h.inv
      exact hsame hm (.of_sameTerms hmarks.terms rfl) rfl
  | depositReserve hm h =>
      refine hsame hm (.of_sameTerms ?_ rfl) rfl
      exact .of_cached (handleDepositReserve_ok h).commodity
  | sweepSpreadFees hm h =>
      refine hsame hm (.of_sameTerms ?_ rfl) rfl
      exact .of_cached (handleSweepSpreadFees_ok h).commodity
  | @keeperUpdatePrice key m x kp ev hm h =>
      have hkey : key ≠ Pubkey.default := by
        intro hx
        obtain rfl := hx
        rw [hclaimed.not_default] at hm
        cases hm
      refine ⟨.put hm ⟨.refl _, fun h => h, ?_⟩, hclaimed.put hm ?_⟩
      · intro kp₀ hkp₀
        rw [← hnamed hm kp₀ hkp₀] at hkey
        rw [Option.mem_def.mp hkp₀] at h
        exact ⟨kp, rfl, handleKeeperUpdatePrice_bounds h hkey⟩
      · intro kp' hkp'
        cases hkp'
        exact handleKeeperUpdatePrice_commodity h
  | setKeeperBounds _ _ h => exact absurd (require_bind_eq_ok.mp h).1.symm hadmin
  | createCommodity _ h => exact absurd (require_bind_eq_ok.mp h).1.symm hadmin
  | configure h =>
      obtain rfl := h.paused hadmin hpending
      exact ⟨⟨rfl, fun _ => rfl, fun _ m hm => ⟨m, hm, .refl m⟩, fun _ h => h⟩,
        ⟨hclaimed.named, hclaimed.not_default⟩⟩
  | reconfigure hm h =>
      obtain ⟨hparams, hhalted⟩ := h.sameParams hadmin
      exact hsame hm ⟨hparams, hhalted, fun kp hkp => ⟨kp, hkp, .refl kp⟩⟩ rfl
  | move hm _ _ => exact hsame hm (.of_sameTerms (.refl _) rfl) rfl

/-- The run's form of `UnprivilegedStep.frame`. -/
theorem UnprivilegedRun.frame (h : UnprivilegedRun env s tr s') (hclaimed : s.Claimed) :
    Frame s s' := by
  induction h with
  | nil s => exact .refl s
  | cons head _ ih =>
      obtain ⟨hframe, hclaimed⟩ := head.frame hclaimed
      exact hframe.trans (ih hclaimed)

/-- A stopped commodity does not trade. -/
theorem ProgramStep.not_stopped {key : Pubkey} {x : TradeInput} {t : Trade}
    (h : ProgramStep env s e s') (he : e.act = .traded key x t) : ¬ s.Stopped key := by
  cases h with
  | trade hm _ h =>
      cases he
      obtain ⟨isBuy, q, hquoted, -⟩ := h.quoted
      intro hs
      rcases hs with hp | ⟨m', hm', hhalted⟩
      · have hopen := hquoted.not_paused
        simp only [Program.desk] at hopen
        rw [hopen] at hp
        cases hp
      · rw [hm] at hm'
        cases hm'
        have hstatus := hquoted.status
        simp only [Program.desk, hhalted] at hstatus
        rcases hstatus with h | ⟨h, -⟩ <;> cases h
  | depositReserve _ _ => cases he
  | sweepSpreadFees _ _ => cases he
  | keeperUpdatePrice _ _ => cases he
  | setKeeperBounds _ _ _ => cases he
  | createCommodity _ _ => cases he
  | configure _ => cases he
  | reconfigure _ _ => cases he
  | move _ _ _ => cases he

/-- Once a commodity is stopped, no trade on it is accepted in the rest of the run. -/
theorem UnprivilegedRun.no_trade (h : UnprivilegedRun env s tr s') (hclaimed : s.Claimed)
    {key : Pubkey} (hs : s.Stopped key) : ∀ e ∈ tr, ∀ x t, e.act ≠ .traded key x t := by
  induction h with
  | nil s => simp
  | @cons s t u e tr head _ ih =>
      obtain ⟨hframe, hclaimed⟩ := head.frame hclaimed
      intro e' he' x t hact
      rcases List.mem_cons.mp he' with rfl | he'
      · exact head.step.not_stopped hact hs
      · exact ih hclaimed (hframe.stopped hs) e' he' x t hact

theorem ProgramRun.claimed {s₀ : Program} {tr₀ : List Signed} (hfresh : s₀.Fresh)
    (hrun : ProgramRun env s₀ tr₀ s) (hdefault : s.markets Pubkey.default = none) : s.Claimed :=
  ⟨hrun.named hfresh, hdefault⟩

end Runs

/-- From any reachable state, a run without the admin leaves the config, the terms of every
commodity and the bounds of every posted price as they are, except that it may pause, halt, open
and close, and rotate Pyth accounts; and it trades no commodity that is Halted, and none once the
desk is paused. A commodity's address is derived, so none is the default one. -/
theorem privilege_frame {env : Env} {s₀ s s' : Program} {tr₀ tr : List Signed} (hfresh : s₀.Fresh)
    (hreach : ProgramRun env s₀ tr₀ s) (hdefault : s.markets Pubkey.default = none)
    (hrun : UnprivilegedRun env s tr s') :
    Frame s s' ∧ ∀ key, s.Stopped key → ∀ e ∈ tr, ∀ x t, e.act ≠ .traded key x t :=
  have hclaimed := ProgramRun.claimed hfresh hreach hdefault
  ⟨hrun.frame hclaimed, fun _ hs => hrun.no_trade hclaimed hs⟩

/-- The program after the sample purchase. -/
def SampleIndex.traded : Program :=
  SampleIndex.program.put (Bytes32.fill 13)
    ((SampleIndex.market (Bytes32.fill 13) SampleIndex.index none).withDesk
      SampleIndex.indexTrade.desk)

/-- A trade by a user, and a keeper's pause. -/
theorem privilege_frame_sample :
    ∃ tr s', UnprivilegedRun Sample.env SampleIndex.program tr s' ∧
      Frame SampleIndex.program s' := by
  obtain ⟨tr₀, hreach⟩ := SampleIndex.program_run
  have hpause : handleSetGlobalPause SampleIndex.keepers (Bytes32.fill 12) true =
      .ok { SampleIndex.keepers with globalPause := true } := by decide +kernel
  have h1 : UnprivilegedStep Sample.env SampleIndex.program _ SampleIndex.traded :=
    ⟨SampleIndex.program_step, by decide +kernel, by decide +kernel⟩
  have h2 : UnprivilegedStep Sample.env SampleIndex.traded ⟨Bytes32.fill 12, .configured⟩ _ :=
    ⟨.configure (.setGlobalPause hpause), by decide +kernel, by decide +kernel⟩
  have hrun := Run.cons h1 (Run.single h2)
  exact ⟨_, _, hrun, (privilege_frame (fun _ => rfl) hreach rfl hrun).1⟩

end IceMarkets.PegDesk
