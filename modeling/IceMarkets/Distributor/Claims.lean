import IceMarkets.Distributor.Accounting

/-!
# IceMarkets.Distributor.Claims

When a claim goes through. A claim that passes the epoch's checks can only fail on the
claimant's own token account (`handleClaim_eq`), and where that account is in order it
is accepted.

Once the epoch is finalized its root and its promise are fixed, and what has been
claimed is the sum of the receipts (`Promised`): so the claims made since then, and
nothing else, decide which ones are left.
-/

namespace IceMarkets.Distributor

open Lts

/-! ### One claim -/

section Claim

variable {env : EpochEnv} {s : Distribution} {x : ClaimInput} {e : Epoch}

/-- The claimant's associated account is free or its own, and the coins in it and in the
vault fit a `u64`, as the supply of a mint does. -/
structure AtaReady (env : EpochEnv) (s : Distribution) (wallet : Pubkey) : Prop where
  account : s.ledger (env.ata wallet) = none ∨ s.ledger.Holds (env.ata wallet) env.coinMint wallet
  supply : s.ledger.amount (env.ata wallet) + s.ledger.amount env.vault < 2 ^ 64

/-- What `claim` does once its checks passed: the token account and the transfer. -/
theorem handleClaim_eq (hchecked : ClaimChecked env s x e)
    (hvault : s.ledger.Holds env.vault env.coinMint env.epochKey)
    (hpaused : s.config.paused = false)
    (hpos : 0 < x.amount.toNat) (hlen : x.proof.length ≤ maxProofLen) :
    ∃ r : Ledger → Distribution × Payout, handleClaim env s x =
      (liftAnchor (s.ledger.initIfNeeded (env.ata x.wallet) env.coinMint x.wallet) >>= fun L =>
        liftToken (L.transfer env.vault (env.ata x.wallet) env.epochKey x.amount) >>= fun L =>
          .ok (r L)) := by
  obtain ⟨a, ha, hmint, howner⟩ := hvault
  have hmerkle := e.merkleTotal.toNat_lt
  have htotal := hchecked.total_le
  obtain ⟨newClaimed, hnew⟩ := exists_toU64
    (show e.claimedAmount.toNat + x.amount.toNat < 2 ^ 64 by omega)
  have hle : newClaimed ≤ e.merkleTotal := by
    rw [UInt64.le_iff_toNat_le, toU64_eq_some.mp hnew]
    exact htotal
  have hpos' : 0 < x.amount := by
    rw [UInt64.lt_iff_toNat_lt]
    exact hpos
  refine ⟨fun L => ({ s with
      epoch := some { e with claimedAmount := newClaimed }
      claimed := { epoch := env.epochKey, wallet := x.wallet, amount := x.amount } :: s.claimed
      ledger := L },
    { pool := e.pool, epoch := env.epochKey, wallet := x.wallet, coinMint := e.coinMint
      amount := x.amount, kind := .claim }), ?_⟩
  unfold handleClaim checkedAdd
  rw [loadEpoch_eq_ok.mpr hchecked.epoch, ok_bind,
    (checkUnclaimed_eq_ok (u := ())).mpr hchecked.unclaimed,
      loadVault_eq_ok.mpr ⟨ha, hmint, howner⟩,
    require_of hpaused, require_of hpos',
    require_of hlen, require_of hchecked.finalized,
    require_of hchecked.open_until, require_of hchecked.proof,
    okOr_eq_ok.mpr hnew]
  simp only [ok_bind, require_of hle]

/-- A claim that passes the checks never fails with an error of the program. -/
theorem handleClaim_ne_custom (hchecked : ClaimChecked env s x e)
    (hvault : s.ledger.Holds env.vault env.coinMint env.epochKey)
    (hpaused : s.config.paused = false)
    (hpos : 0 < x.amount.toNat) (hlen : x.proof.length ≤ maxProofLen) (err : DistError) :
    handleClaim env s x ≠ .error (.custom err) := by
  obtain ⟨r, hr⟩ := handleClaim_eq hchecked hvault hpaused hpos hlen
  rw [hr]
  intro h
  rcases bind_eq_error.mp h with h | ⟨L, -, h⟩
  · exact liftAnchor_ne_custom h
  · obtain ⟨L', -, h⟩ := liftToken_bind_eq_error.mp h
    cases h

/-- With the claimant's account in order and the funds in the vault, it is accepted. -/
theorem accepted_handleClaim (hchecked : ClaimChecked env s x e)
    (hvault : s.ledger.Holds env.vault env.coinMint env.epochKey)
    (hpaused : s.config.paused = false)
    (hpos : 0 < x.amount.toNat) (hlen : x.proof.length ≤ maxProofLen)
    (hfunds : x.amount.toNat ≤ s.ledger.amount env.vault) (hata : AtaReady env s x.wallet) :
    Accepted (handleClaim env s x) := by
  obtain ⟨r, hr⟩ := handleClaim_eq hchecked hvault hpaused hpos hlen
  obtain ⟨L, hL⟩ := Ledger.exists_initIfNeeded hata.account
  obtain ⟨⟨d, hd, hdmint, -⟩, hkeep, -⟩ := Ledger.initIfNeeded_ok hL
  obtain ⟨v, hv, hvmint, hvowner⟩ := hvault.initIfNeeded hL
  have hsupply := hata.supply
  have hroom : L.amount (env.ata x.wallet) + x.amount.toNat < 2 ^ 64 := by
    rw [hkeep]
    omega
  rw [← hkeep] at hfunds
  obtain ⟨L', hL'⟩ := Ledger.exists_transfer hv hd (hvmint.trans hdmint.symm) hvowner hfunds hroom
  rw [hr]
  exact ⟨r L', bind_eq_ok.mpr ⟨L, liftAnchor_eq_ok.mpr hL,
    bind_eq_ok.mpr ⟨L', liftToken_eq_ok.mpr hL', rfl⟩⟩⟩

end Claim

/-! ### Receipts -/

/-- Who has claimed, and how much, latest first. -/
def Distribution.receipts (s : Distribution) : List PayoutItem :=
  s.claimed.map fun c => { wallet := c.wallet, amount := c.amount }

/-- The claim a step made. -/
def Report.claim? : Report → Option PayoutItem
  | claimed wallet amount => some { wallet, amount }
  | _ => none

/-- The claims of a run, in order. -/
def claims (tr : List Event) : List PayoutItem := tr.filterMap fun ev => ev.report.claim?

section Receipts

variable {env : EpochEnv} {s s' : Distribution} {ev : Event}

theorem Step.receipts (h : Step env s ev s') :
    s'.receipts = ev.report.claim?.toList ++ s.receipts := by
  obtain ⟨now, r⟩ := ev
  unfold Distribution.receipts
  cases r with
  | opened total =>
      obtain ⟨x, -, -, h⟩ := h.opened_inv
      rw [h.claimed]
      rfl
  | pushed items =>
      obtain ⟨x, e, -, h⟩ := h.pushed_inv
      rw [h.claimed]
      rfl
  | finalized merkleRoot merkleTotal =>
      obtain ⟨e, h⟩ := h.finalized_inv
      rw [h.state]
      rfl
  | claimed wallet amount =>
      obtain ⟨x, e, -, rfl, rfl, -, h⟩ := h.claimed_inv
      rw [h.claimed]
      rfl
  | swept amount =>
      obtain ⟨x, e, -, h⟩ := h.swept_inv
      rw [h.claimed]
      rfl
  | configured config =>
      rw [h.configured_inv]
      rfl
  | external donated =>
      obtain ⟨L, -, rfl⟩ := h.external_inv
      rfl

/-- The receipts grow by the claims of the run. -/
theorem EpochRun.receipts {p p' : Distribution × Int} {tr : List Event} (h : EpochRun env p tr p') :
    p'.1.receipts = (claims tr).reverse ++ p.1.receipts := by
  induction h with
  | nil p => rfl
  | @cons p q r ev tr head tail ih =>
      rw [ih, head.step.receipts]
      unfold claims
      cases hc : ev.report.claim? with
      | none => simp [hc]
      | some item => simp [hc]

end Receipts

/-! ### Before and after the finalization -/

/-- Nothing was claimed yet. -/
structure Unclaimed (env : EpochEnv) (s : Distribution) : Prop where
  receipts : s.claimed = []
  epoch : ∀ e, s.epoch = some e →
    e.claimedAmount = 0 ∧ s.ledger.Holds env.vault env.coinMint env.epochKey

/-- The epoch is finalized with this root and this promise, and what was claimed of it is
the sum of the receipts. -/
structure Promised (env : EpochEnv) (merkleRoot : Bytes32) (merkleTotal : UInt64)
    (s : Distribution) : Prop where
  epoch : ∃ e, s.epoch = some e ∧ e.finalized = true ∧ e.merkleRoot = merkleRoot ∧
    e.merkleTotal = merkleTotal ∧ e.claimedAmount.toNat = itemTotal s.receipts
  nodup : (s.receipts.map (·.wallet)).Nodup
  vault : s.ledger.Holds env.vault env.coinMint env.epochKey

section Finalization

variable {env : EpochEnv} {s s' : Distribution} {ev : Event} {merkleRoot : Bytes32}
  {merkleTotal : UInt64}

/-- Claims wait for the finalization. -/
theorem Unclaimed.step (hs : Unclaimed env s) (h : Step env s ev s') :
    (s'.book env).Final ∨ Unclaimed env s' := by
  obtain ⟨now, r⟩ := ev
  have hbook := h.book
  cases r with
  | opened total =>
      obtain ⟨x, -, -, h⟩ := h.opened_inv
      obtain ⟨e, he, -, -, -, -, hclaimed, -⟩ := h.epoch
      refine Or.inr ⟨h.claimed.trans hs.receipts, ?_⟩
      intro e' he'
      cases he.symm.trans he'
      exact ⟨hclaimed, h.vaultHolds⟩
  | pushed items =>
      obtain ⟨x, e, -, h⟩ := h.pushed_inv
      obtain ⟨pushed, -, he'⟩ := h.epoch'
      obtain ⟨hclaimed, hvault⟩ := hs.epoch e h.epoch
      refine Or.inr ⟨h.claimed.trans hs.receipts, ?_⟩
      intro e'' he''
      cases he'.symm.trans he''
      exact ⟨hclaimed, h.holds _ _ _ hvault⟩
  | finalized => exact Or.inl (Escrow.Book.final_of_closes hbook trivial)
  | claimed wallet amount =>
      obtain ⟨x, e, -, -, -, -, heff⟩ := h.claimed_inv
      have hfinal : (s.book env).Final := by
        rw [book_of_some heff.epoch]
        exact ⟨rfl, heff.finalized⟩
      exact Or.inl (hfinal.step hbook).1
  | swept amount => exact Or.inl (Escrow.Book.final_of_closes hbook trivial)
  | configured config =>
      rw [h.configured_inv]
      exact Or.inr ⟨hs.receipts, hs.epoch⟩
  | external donated =>
      obtain ⟨L, hL, rfl⟩ := h.external_inv
      refine Or.inr ⟨hs.receipts, fun e he => ?_⟩
      obtain ⟨hclaimed, hvault⟩ := hs.epoch e he
      exact ⟨hclaimed, hL.holds _ _ hvault⟩

/-- Finalizing an unclaimed epoch makes the promise. -/
theorem Unclaimed.finalized {now : Int} (hs : Unclaimed env s)
    (h : Step env s ⟨now, .finalized merkleRoot merkleTotal⟩ s') :
    Promised env merkleRoot merkleTotal s' := by
  obtain ⟨e, h⟩ := h.finalized_inv
  obtain ⟨hclaimed, hvault⟩ := hs.epoch e h.epoch
  have hreceipts : s'.receipts = [] := by
    rw [h.state]
    unfold Distribution.receipts
    simp [hs.receipts]
  refine ⟨?_, ?_, ?_⟩
  · rw [hreceipts, h.state]
    exact ⟨_, rfl, rfl, rfl, rfl, by simp [hclaimed, itemTotal]⟩
  · rw [hreceipts]
    exact List.nodup_nil
  · rw [h.state]
    exact hvault

/-- The promise stands whatever happens next. -/
theorem Promised.step (hs : Promised env merkleRoot merkleTotal s) (h : Step env s ev s') :
    Promised env merkleRoot merkleTotal s' := by
  obtain ⟨⟨e, he, hfin, hroot, htotal, hclaimed⟩, hnodup, hvault⟩ := hs
  have hreceipts := h.receipts
  obtain ⟨now, r⟩ := ev
  cases r with
  | opened total =>
      obtain ⟨x, -, -, h⟩ := h.opened_inv
      cases h.fresh.symm.trans he
  | pushed items =>
      obtain ⟨x, e', -, h⟩ := h.pushed_inv
      cases h.epoch.symm.trans he
      cases h.not_finalized.symm.trans hfin
  | finalized =>
      obtain ⟨e', h⟩ := h.finalized_inv
      cases h.epoch.symm.trans he
      cases h.not_finalized.symm.trans hfin
  | claimed wallet amount =>
      obtain ⟨x, e', -, rfl, rfl, -, h⟩ := h.claimed_inv
      obtain ⟨newClaimed, hnew, he'⟩ := h.epoch'
      cases h.epoch.symm.trans he
      change s'.receipts = { wallet := x.wallet, amount := x.amount } :: s.receipts at hreceipts
      refine ⟨⟨_, he', hfin, hroot, htotal, ?_⟩, ?_, h.holds _ _ _ hvault⟩
      · rw [hreceipts]
        simp only [itemTotal, List.map_cons, List.sum_cons] at hclaimed ⊢
        omega
      · rw [hreceipts, List.map_cons, List.nodup_cons]
        refine ⟨?_, hnodup⟩
        unfold Distribution.receipts
        rw [List.map_map]
        intro hmem
        obtain ⟨c, hc, heq⟩ := List.mem_map.mp hmem
        exact h.unclaimed c hc heq
  | swept amount =>
      obtain ⟨x, e', -, h⟩ := h.swept_inv
      cases h.epoch.symm.trans he
      change s'.receipts = s.receipts at hreceipts
      rw [← hreceipts] at hclaimed hnodup
      exact ⟨⟨_, h.epoch', rfl, hroot, htotal, hclaimed⟩, hnodup, h.holds _ _ _ hvault⟩
  | configured config =>
      rw [h.configured_inv]
      exact ⟨⟨e, he, hfin, hroot, htotal, hclaimed⟩, hnodup, hvault⟩
  | external donated =>
      obtain ⟨L, hL, rfl⟩ := h.external_inv
      exact ⟨⟨e, he, hfin, hroot, htotal, hclaimed⟩, hnodup, hL.holds _ _ hvault⟩

/-- A run from an epoch not opened yet to its finalization makes the promise, with no
claim before it. -/
theorem promised_of_run {c c' now : Int} {tr : List Event} (hfresh : s.epoch = none)
    (hclaimed : s.claimed = [])
    (h : EpochRun env (s, c) (tr ++ [⟨now, .finalized merkleRoot merkleTotal⟩]) (s', c')) :
    Promised env merkleRoot merkleTotal s' ∧ s'.receipts = [] := by
  obtain ⟨p, hrun, hlast⟩ := Run.snoc_iff.mp h
  have hp : (p.1.book env).Final ∨ Unclaimed env p.1 := by
    refine hrun.invariant (I := fun p => (p.1.book env).Final ∨ Unclaimed env p.1) ?_
      (Or.inr ⟨hclaimed, fun e he => absurd (hfresh.symm.trans he) nofun⟩)
    intro p ev q hstep hp
    rcases hp with hp | hp
    · exact Or.inl (hp.step hstep.step.book).1
    · exact hp.step hstep.step
  rcases hp with hp | hp
  · -- a final epoch is not finalized again
    obtain ⟨e, heff⟩ := hlast.step.finalized_inv
    have hfin := hp.finalized
    rw [book_of_some heff.epoch] at hfin
    cases heff.not_finalized.symm.trans hfin
  · refine ⟨hp.finalized hlast.step, ?_⟩
    rw [hlast.step.receipts]
    unfold Distribution.receipts
    rw [hp.receipts]
    rfl

theorem Promised.run {c c' : Int} {tr : List Event} (hs : Promised env merkleRoot merkleTotal s)
    (h : EpochRun env (s, c) tr (s', c')) : Promised env merkleRoot merkleTotal s' :=
  h.invariant (I := fun p => Promised env merkleRoot merkleTotal p.1)
    (fun _ _ _ hstep hp => hp.step hstep.step) hs

end Finalization

end IceMarkets.Distributor
