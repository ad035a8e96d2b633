import IceMarkets.Distributor.Effect

/-!
# IceMarkets.Distributor.Moves

What the distributor's handlers move on the ledger, at every address: the effects of
`IceMarkets.Distributor.Effect` speak of the epoch's own vault alone.
-/

namespace IceMarkets.Distributor

open Ledger

variable {env : EpochEnv} {s s' : Distribution} {L L' : Ledger}

/-! ### Opening -/

/-- `source_authority` signs and owns the source. -/
def OpenEpochInput.Direct (x : OpenEpochInput) (L : Ledger) : Prop :=
  x.authoritySigns = true ∧ (L x.sourceVault).map (·.owner) = some x.sourceAuthority

instance (x : OpenEpochInput) (L : Ledger) : Decidable (x.Direct L) :=
  inferInstanceAs (Decidable (_ ∧ _))

/-- How an accepted `open_epoch` was funded: from the source whose owner signs, or by the router
it was given. -/
inductive Funded (env : EpochEnv) (x : OpenEpochInput) (L L' : Ledger) : Prop
  | direct (hdirect : x.Direct L)
      (h : L.transfer x.sourceVault env.vault x.sourceAuthority x.args.totalAmount = .ok L')
  | router {router : RouterAccounts} (hdirect : ¬ x.Direct L)
      (h : env.withdrawForEpoch
        { feeRouterProgram := router.feeRouterProgram, routerConfig := router.routerConfig
          poolState := x.sourceAuthority, holderVault := x.sourceVault
          amount := x.args.totalAmount } L = some L')

/-- What an accepted `open_epoch` did beside its own accounts. -/
structure OpenMoves (env : EpochEnv) (s : Distribution) (x : OpenEpochInput)
    (s' : Distribution) : Prop where
  keeper : s.config.isAdminOrKeeper x.keeper = true
  unpaused : s.config.paused = false
  coinMint : ∀ e, s'.epoch = some e → e.coinMint = env.coinMint
  funded : ∃ L, s.ledger.initIfNeeded env.vault env.coinMint env.epochKey = .ok L ∧
    Funded env x L s'.ledger

theorem handleOpenEpoch_moves {x : OpenEpochInput} {ev : EpochOpened}
    (h : handleOpenEpoch env s x = .ok (s', ev)) : OpenMoves env s x s' := by
  unfold handleOpenEpoch at h
  obtain ⟨_, -, h⟩ := bind_eq_ok.mp h
  obtain ⟨_, -, h⟩ := bind_eq_ok.mp h
  obtain ⟨L, hL, h⟩ := bind_eq_ok.mp h
  obtain ⟨source, hsource, h⟩ := bind_eq_ok.mp h
  obtain ⟨hpaused, h⟩ := require_bind_eq_ok.mp h
  obtain ⟨hkeeper, h⟩ := require_bind_eq_ok.mp h
  obtain ⟨-, h⟩ := require_bind_eq_ok.mp h
  obtain ⟨-, h⟩ := require_bind_eq_ok.mp h
  obtain ⟨-, h⟩ := require_bind_eq_ok.mp h
  obtain ⟨L', hL', h⟩ := bind_eq_ok.mp h
  obtain ⟨-, h⟩ := require_bind_eq_ok.mp h
  cases h
  have hdirect : x.Direct L ↔ x.authoritySigns = true ∧ source.owner = x.sourceAuthority := by
    unfold OpenEpochInput.Direct
    rw [(loadTokenAccount_eq_ok.mp hsource).1, Option.map_some, Option.some.injEq]
  refine ⟨hkeeper, hpaused, fun e he => ?_, L, liftAnchor_eq_ok.mp hL, ?_⟩
  · cases he
    rfl
  · split_ifs at hL' with hsigns
    · exact .direct (hdirect.mpr hsigns) (liftToken_eq_ok.mp hL')
    · obtain ⟨router, hrouter⟩ := fundFromRouter_ok hL'
      exact .router (mt hdirect.mp hsigns) hrouter

/-! ### Pushing -/

/-- What the payments of a push send to an address. -/
def sentTo (pays : List (PayoutItem × DestInfo)) (key : Pubkey) : Nat :=
  (pays.map fun pay => paid pay.2.key pay.1.amount.toNat key).sum

theorem payItems_moved {pays : List (PayoutItem × DestInfo)}
    (h : payItems env pays L = .ok L') :
    L.Moved (paid env.vault (itemTotal (pays.map Prod.fst))) (sentTo pays) [] L' := by
  induction pays generalizing L with
  | nil =>
      cases h
      exact (Moved.refl L').congr (fun _ => (ite_self 0).symm) fun _ => rfl
  | cons pay pays ih =>
      obtain ⟨it, dest⟩ := pay
      obtain ⟨-, L₁, htr, h⟩ := payItems_cons_ok h
      refine ((moved_transfer htr).trans (ih h)).congr ?_ ?_
      · intro key
        unfold paid
        by_cases hkey : key = env.vault <;> simp [hkey, itemTotal]
      · intro key
        simp [sentTo]

/-- What an accepted `push_payouts` did beside its own accounts. -/
structure PushMoves (env : EpochEnv) (s : Distribution) (x : PushInput) (s' : Distribution) :
    Prop where
  keeper : s.config.isAdminOrKeeper x.keeper = true
  unpaused : s.config.paused = false
  moved : s.ledger.Moved (paid env.vault (itemTotal x.items)) (sentTo (x.items.zip x.dests)) []
    s'.ledger

theorem handlePushPayouts_moves {x : PushInput} {evs : List Payout}
    (h : handlePushPayouts env s x = .ok (s', evs)) : PushMoves env s x s' := by
  unfold handlePushPayouts at h
  obtain ⟨e, -, h⟩ := bind_eq_ok.mp h
  obtain ⟨_, -, h⟩ := bind_eq_ok.mp h
  obtain ⟨hpaused, h⟩ := require_bind_eq_ok.mp h
  obtain ⟨hkeeper, h⟩ := require_bind_eq_ok.mp h
  obtain ⟨-, h⟩ := require_bind_eq_ok.mp h
  obtain ⟨hdests, h⟩ := require_bind_eq_ok.mp h
  obtain ⟨-, h⟩ := require_bind_eq_ok.mp h
  obtain ⟨sum, -, h⟩ := bind_eq_ok.mp h
  obtain ⟨rem, -, h⟩ := okOr_bind_eq_ok.mp h
  obtain ⟨-, h⟩ := require_bind_eq_ok.mp h
  obtain ⟨pushed, -, h⟩ := okOr_bind_eq_ok.mp h
  obtain ⟨-, h⟩ := require_bind_eq_ok.mp h
  obtain ⟨L, hL, h⟩ := bind_eq_ok.mp h
  cases h
  have hmoved := payItems_moved hL
  rw [map_fst_zip_dests hdests] at hmoved
  exact ⟨hkeeper, hpaused, hmoved⟩

/-! ### Finalizing, claiming, sweeping -/

theorem handleFinalizeEpoch_keeper {keeper : Pubkey} {merkleRoot : Bytes32} {merkleTotal : UInt64}
    {ev : EpochFinalized} (h : handleFinalizeEpoch s keeper merkleRoot merkleTotal = .ok (s', ev)) :
    s.config.isAdminOrKeeper keeper = true ∧ s.config.paused = false := by
  unfold handleFinalizeEpoch at h
  obtain ⟨e, -, h⟩ := bind_eq_ok.mp h
  obtain ⟨hpaused, h⟩ := require_bind_eq_ok.mp h
  obtain ⟨hkeeper, -⟩ := require_bind_eq_ok.mp h
  exact ⟨hkeeper, hpaused⟩

theorem handleClaim_moves {x : ClaimInput} {ev : Payout}
    (h : handleClaim env s x = .ok (s', ev)) :
    s.config.paused = false ∧ s.ledger.Moved (paid env.vault x.amount.toNat)
      (paid (env.ata x.wallet) x.amount.toNat) [(env.ata x.wallet, x.wallet)] s'.ledger := by
  unfold handleClaim at h
  obtain ⟨e, -, h⟩ := bind_eq_ok.mp h
  obtain ⟨_, -, h⟩ := bind_eq_ok.mp h
  obtain ⟨_, -, h⟩ := bind_eq_ok.mp h
  obtain ⟨L, hL, h⟩ := bind_eq_ok.mp h
  obtain ⟨hpaused, h⟩ := require_bind_eq_ok.mp h
  obtain ⟨-, h⟩ := require_bind_eq_ok.mp h
  obtain ⟨-, h⟩ := require_bind_eq_ok.mp h
  obtain ⟨-, h⟩ := require_bind_eq_ok.mp h
  obtain ⟨-, h⟩ := require_bind_eq_ok.mp h
  obtain ⟨-, h⟩ := require_bind_eq_ok.mp h
  obtain ⟨newClaimed, -, h⟩ := okOr_bind_eq_ok.mp h
  obtain ⟨-, h⟩ := require_bind_eq_ok.mp h
  obtain ⟨L', htr, h⟩ := bind_eq_ok.mp h
  cases h
  have hmoved := (moved_initIfNeeded (liftAnchor_eq_ok.mp hL)).trans
    (moved_transfer (liftToken_eq_ok.mp htr))
  exact ⟨hpaused, hmoved.congr (fun _ => Nat.zero_add _) fun _ => Nat.zero_add _⟩

theorem handleSweepUnclaimed_moves {x : SweepInput} {ev : EpochSwept}
    (h : handleSweepUnclaimed env s x = .ok (s', ev)) :
    x.admin = s.config.admin ∧ x.treasury = env.routerTreasury s.config.feeRouter ∧
      s.ledger.Moved (paid env.vault ev.amount.toNat) (paid x.treasury ev.amount.toNat) []
        s'.ledger := by
  unfold handleSweepUnclaimed at h
  obtain ⟨hadmin, h⟩ := require_bind_eq_ok.mp h
  obtain ⟨e, -, h⟩ := bind_eq_ok.mp h
  obtain ⟨vault, -, h⟩ := bind_eq_ok.mp h
  obtain ⟨_, -, h⟩ := bind_eq_ok.mp h
  obtain ⟨-, h⟩ := require_bind_eq_ok.mp h
  obtain ⟨htreasury, h⟩ := require_bind_eq_ok.mp h
  obtain ⟨L, hL, h⟩ := bind_eq_ok.mp h
  cases h
  refine ⟨hadmin, htreasury, ?_⟩
  by_cases hpos : 0 < vault.amount
  · rw [if_pos hpos] at hL
    exact moved_transfer (liftToken_eq_ok.mp hL)
  · rw [if_neg hpos] at hL
    cases hL
    have hzero : vault.amount.toNat = 0 := by
      rw [UInt64.lt_iff_toNat_lt, UInt64.toNat_zero] at hpos
      omega
    rw [hzero]
    exact (Moved.refl s.ledger).congr (fun _ => (ite_self 0).symm) fun _ => (ite_self 0).symm

end IceMarkets.Distributor
