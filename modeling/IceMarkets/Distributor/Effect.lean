import IceMarkets.Distributor.Instructions

/-!
# IceMarkets.Distributor.Effect

What an accepted instruction of the distributor checked and did, stated once per
handler, and what a handler that lacks funds had passed before. Every later result
about epochs is derived from these facts.

The vault enters by its balance alone: each effect says by how much the
instruction changed it.
-/

namespace IceMarkets.Distributor

variable {env : EpochEnv} {s s' : Distribution} {L L' : Ledger} {e : Epoch}

/-! ### Accounts -/

theorem loadEpoch_eq_ok : loadEpoch s = .ok e ↔ s.epoch = some e := by
  unfold loadEpoch
  rw [liftAnchor_eq_ok]
  cases s.epoch with
  | none => simp
  | some e' => simp

theorem checkUnclaimed_eq_ok {wallet : Pubkey} {u : Unit} :
    checkUnclaimed s wallet = .ok u ↔ ∀ c ∈ s.claimed, c.wallet ≠ wallet := by
  unfold checkUnclaimed
  rw [liftAnchor_eq_ok]
  simp

theorem loadTokenAccount_eq_ok {key : Pubkey} {a : TokenAccount} :
    loadTokenAccount env L key = .ok a ↔ L key = some a ∧ a.mint = env.coinMint := by
  unfold loadTokenAccount
  rw [liftAnchor_eq_ok]
  cases L key with
  | none => simp
  | some b =>
      by_cases h : b.mint = env.coinMint
      · simp only [h, if_true, Except.ok.injEq, Option.some.injEq]
        constructor
        · intro hx
          obtain rfl := hx
          exact ⟨rfl, h⟩
        · exact fun h' => h'.1
      · simp only [h, if_false, reduceCtorEq, Option.some.injEq, false_iff, not_and]
        intro hx
        obtain rfl := hx
        exact h

theorem loadVault_eq_ok {a : TokenAccount} :
    loadVault env L = .ok a ↔
      L env.vault = some a ∧ a.mint = env.coinMint ∧ a.owner = env.epochKey := by
  unfold loadVault
  simp only [bind_eq_ok, loadTokenAccount_eq_ok, liftAnchor_eq_ok]
  constructor
  · intro h
    obtain ⟨b, ⟨hb, hmint⟩, h⟩ := h
    split_ifs at h with howner
    cases h
    exact ⟨hb, hmint, howner⟩
  · intro hx
    obtain ⟨ha, hmint, howner⟩ := hx
    exact ⟨a, ⟨ha, hmint⟩, by simp [howner]⟩

theorem loadVault_ne_token {t : TokenError} : loadVault env L ≠ .error (.token t) := by
  intro h
  unfold loadVault at h
  obtain ⟨a, -, h⟩ := (bind_eq_error_of_ne liftAnchor_ne_token).mp h
  exact liftAnchor_ne_token h

/-! ### Opening -/

/-- What an accepted `open_epoch` checked and did. -/
structure OpenEffect (env : EpochEnv) (s : Distribution) (x : OpenEpochInput)
    (s' : Distribution) : Prop where
  fresh : s.epoch = none
  total_pos : 0 < x.args.totalAmount.toNat
  ended : x.args.endTs ≤ x.now ∧ satSubI64 x.now maxEpochAgeSecs ≤ x.args.endTs
  epoch : ∃ e, s'.epoch = some e ∧ e.endTs = x.args.endTs ∧ e.totalAmount = x.args.totalAmount ∧
    e.pushedAmount = 0 ∧ e.merkleTotal = 0 ∧ e.claimedAmount = 0 ∧ e.finalized = false
  vault : s'.ledger.amount env.vault = s.ledger.amount env.vault + x.args.totalAmount.toNat
  vaultHolds : s'.ledger.Holds env.vault env.coinMint env.epochKey
  config : s'.config = s.config
  claimed : s'.claimed = s.claimed

theorem fundFromRouter_ok {cfg : DistConfig} {x : OpenEpochInput} {owner : Pubkey}
    (h : fundFromRouter env cfg x owner L = .ok L') :
    ∃ router : RouterAccounts, env.withdrawForEpoch
      { feeRouterProgram := router.feeRouterProgram, routerConfig := router.routerConfig
        poolState := x.sourceAuthority, holderVault := x.sourceVault
        amount := x.args.totalAmount } L = some L' := by
  unfold fundFromRouter at h
  obtain ⟨router, -, h⟩ := okOr_bind_eq_ok.mp h
  obtain ⟨-, h⟩ := require_bind_eq_ok.mp h
  obtain ⟨-, h⟩ := require_bind_eq_ok.mp h
  obtain ⟨-, h⟩ := require_bind_eq_ok.mp h
  obtain ⟨-, h⟩ := require_bind_eq_ok.mp h
  exact ⟨router, okOr_eq_ok.mp h⟩

theorem fundFromRouter_holds {cfg : DistConfig} {x : OpenEpochInput} {authority mint owner : Pubkey}
    (h : fundFromRouter env cfg x authority L = .ok L') (hL : L.Holds env.vault mint owner) :
    L'.Holds env.vault mint owner := by
  obtain ⟨router, h⟩ := fundFromRouter_ok h
  exact env.withdraw_holds _ _ _ h mint owner hL

theorem handleOpenEpoch_ok {x : OpenEpochInput} {ev : EpochOpened}
    (h : handleOpenEpoch env s x = .ok (s', ev)) : OpenEffect env s x s' := by
  unfold handleOpenEpoch at h
  obtain ⟨_, hfresh, h⟩ := bind_eq_ok.mp h
  obtain ⟨_, -, h⟩ := bind_eq_ok.mp h
  obtain ⟨L, hL, h⟩ := bind_eq_ok.mp h
  obtain ⟨source, -, h⟩ := bind_eq_ok.mp h
  obtain ⟨-, h⟩ := require_bind_eq_ok.mp h
  obtain ⟨-, h⟩ := require_bind_eq_ok.mp h
  obtain ⟨-, h⟩ := require_bind_eq_ok.mp h
  obtain ⟨hended, h⟩ := require_bind_eq_ok.mp h
  obtain ⟨hpos, h⟩ := require_bind_eq_ok.mp h
  obtain ⟨L', hL', h⟩ := bind_eq_ok.mp h
  obtain ⟨hfund, h⟩ := require_bind_eq_ok.mp h
  cases h
  have hfresh : s.epoch = none := by
    rw [liftAnchor_eq_ok] at hfresh
    cases hs : s.epoch with
    | none => rfl
    | some e => simp [hs] at hfresh
  have hpos := UInt64.lt_iff_toNat_lt.mp hpos
  rw [UInt64.toNat_zero] at hpos
  obtain ⟨hvault, hkeep, -⟩ := Ledger.initIfNeeded_ok (liftAnchor_eq_ok.mp hL)
  refine ⟨hfresh, hpos, hended, ⟨_, rfl, rfl, rfl, rfl, rfl, rfl, rfl⟩, ?_, ?_, rfl, rfl⟩
  · -- the creation of the vault, where it was missing, moved no balance
    have hkeep := hkeep env.vault
    change L'.amount env.vault = _
    omega
  · change L'.Holds env.vault env.coinMint env.epochKey
    split_ifs at hL'
    · exact hvault.transfer (liftToken_eq_ok.mp hL')
    · exact fundFromRouter_holds hL' hvault

/-! ### Pushing -/

/-- The sum of the items of a push. -/
def itemTotal (items : List PayoutItem) : Nat := (items.map fun it => it.amount.toNat).sum

theorem sumItems_ok {items : List PayoutItem} {sum sum' : UInt64}
    (h : sumItems items sum = .ok sum') : sum'.toNat = sum.toNat + itemTotal items := by
  induction items generalizing sum with
  | nil =>
      cases h
      simp [itemTotal]
  | cons it items ih =>
      unfold sumItems at h
      obtain ⟨-, h⟩ := require_bind_eq_ok.mp h
      obtain ⟨next, hnext, h⟩ := okOr_bind_eq_ok.mp h
      have hsum := ih h
      rw [checkedAdd_eq_some.mp hnext] at hsum
      simp only [itemTotal, List.map_cons, List.sum_cons] at hsum ⊢
      omega

theorem sumItems_ne_token {items : List PayoutItem} {sum : UInt64} {t : TokenError} :
    sumItems items sum ≠ .error (.token t) := by
  induction items generalizing sum with
  | nil => nofun
  | cons it items ih =>
      intro h
      unfold sumItems at h
      obtain ⟨_, -, h⟩ := (bind_eq_error_of_ne require_ne_token).mp h
      obtain ⟨next, -, h⟩ := (bind_eq_error_of_ne okOr_ne_token).mp h
      exact ih h

/-- A payment is a transfer from the vault to another account, and then the rest are paid. -/
theorem payItems_cons_ok {it : PayoutItem} {dest : DestInfo} {pays : List (PayoutItem × DestInfo)}
    (h : payItems env ((it, dest) :: pays) L = .ok L') :
    dest.key ≠ env.vault ∧ ∃ L₁, L.transfer env.vault dest.key env.epochKey it.amount = .ok L₁ ∧
      payItems env pays L₁ = .ok L' := by
  unfold payItems at h
  obtain ⟨-, h⟩ := require_bind_eq_ok.mp h
  obtain ⟨-, h⟩ := require_bind_eq_ok.mp h
  obtain ⟨hne, h⟩ := require_bind_eq_ok.mp h
  obtain ⟨ta, -, h⟩ := okOr_bind_eq_ok.mp h
  obtain ⟨-, h⟩ := require_bind_eq_ok.mp h
  obtain ⟨-, h⟩ := require_bind_eq_ok.mp h
  obtain ⟨L₁, htr, h⟩ := bind_eq_ok.mp h
  exact ⟨hne, L₁, liftToken_eq_ok.mp htr, h⟩

/-- Each payment leaves the vault by exactly its amount. -/
theorem payItems_ok {pays : List (PayoutItem × DestInfo)} (h : payItems env pays L = .ok L') :
    L'.amount env.vault + itemTotal (pays.map Prod.fst) = L.amount env.vault := by
  induction pays generalizing L with
  | nil =>
      cases h
      rfl
  | cons pay pays ih =>
      obtain ⟨it, dest⟩ := pay
      obtain ⟨hne, L₁, htr, h⟩ := payItems_cons_ok h
      have hpaid := (Ledger.transfer_ok htr (Ne.symm hne)).1
      have hrest := ih h
      simp only [itemTotal, List.map_cons, List.sum_cons] at hrest ⊢
      omega

theorem payItems_holds {pays : List (PayoutItem × DestInfo)} {key mint owner : Pubkey}
    (h : payItems env pays L = .ok L') (hL : L.Holds key mint owner) :
    L'.Holds key mint owner := by
  induction pays generalizing L with
  | nil =>
      cases h
      exact hL
  | cons pay pays ih =>
      obtain ⟨it, dest⟩ := pay
      obtain ⟨-, L₁, htr, h⟩ := payItems_cons_ok h
      exact ih h (hL.transfer htr)

/-- The paying loop lacks funds only where the vault holds less than the items. -/
theorem payItems_insufficientFunds {pays : List (PayoutItem × DestInfo)}
    (h : payItems env pays L = .error (.token .insufficientFunds)) :
    L.amount env.vault < itemTotal (pays.map Prod.fst) := by
  induction pays generalizing L with
  | nil => cases h
  | cons pay pays ih =>
      obtain ⟨it, dest⟩ := pay
      unfold payItems at h
      obtain ⟨-, h⟩ := (require_bind_eq_error (by simp)).mp h
      obtain ⟨-, h⟩ := (require_bind_eq_error (by simp)).mp h
      obtain ⟨hne, h⟩ := (require_bind_eq_error (by simp)).mp h
      obtain ⟨ta, -, h⟩ := (okOr_bind_eq_error (by simp)).mp h
      obtain ⟨-, h⟩ := (require_bind_eq_error (by simp)).mp h
      obtain ⟨-, h⟩ := (require_bind_eq_error (by simp)).mp h
      simp only [itemTotal, List.map_cons, List.sum_cons] at ih ⊢
      rcases bind_eq_error.mp h with h | ⟨L₁, htr, h⟩
      · obtain ⟨t, ht, heq⟩ := liftToken_eq_error.mp h
        cases heq
        have := Ledger.lt_of_insufficientFunds ht
        omega
      · have hpaid := (Ledger.transfer_ok (liftToken_eq_ok.mp htr) (Ne.symm hne)).1
        have := ih h
        omega

/-- What a push checked before it paid anyone. -/
structure PushChecked (s : Distribution) (x : PushInput) (e : Epoch) : Prop where
  epoch : s.epoch = some e
  not_finalized : e.finalized = false
  dests : x.dests.length = x.items.length
  total_le : e.pushedAmount.toNat + itemTotal x.items ≤ e.totalAmount.toNat

/-- What an accepted `push_payouts` checked and did. -/
structure PushEffect (env : EpochEnv) (s : Distribution) (x : PushInput) (e : Epoch)
    (s' : Distribution) : Prop extends PushChecked s x e where
  epoch' : ∃ pushed : UInt64, pushed.toNat = e.pushedAmount.toNat + itemTotal x.items ∧
    s'.epoch = some { e with pushedAmount := pushed }
  vault : s'.ledger.amount env.vault + itemTotal x.items = s.ledger.amount env.vault
  holds : ∀ key mint owner, s.ledger.Holds key mint owner → s'.ledger.Holds key mint owner
  config : s'.config = s.config
  claimed : s'.claimed = s.claimed

theorem map_fst_zip_dests {x : PushInput} (h : x.dests.length = x.items.length) :
    (x.items.zip x.dests).map Prod.fst = x.items :=
  List.map_fst_zip (le_of_eq h.symm)

theorem handlePushPayouts_ok {x : PushInput} {evs : List Payout}
    (h : handlePushPayouts env s x = .ok (s', evs)) : ∃ e, PushEffect env s x e s' := by
  unfold handlePushPayouts at h
  obtain ⟨e, he, h⟩ := bind_eq_ok.mp h
  obtain ⟨_, -, h⟩ := bind_eq_ok.mp h
  obtain ⟨-, h⟩ := require_bind_eq_ok.mp h
  obtain ⟨-, h⟩ := require_bind_eq_ok.mp h
  obtain ⟨-, h⟩ := require_bind_eq_ok.mp h
  obtain ⟨hdests, h⟩ := require_bind_eq_ok.mp h
  obtain ⟨hfin, h⟩ := require_bind_eq_ok.mp h
  obtain ⟨sum, hsum, h⟩ := bind_eq_ok.mp h
  obtain ⟨rem, hrem, h⟩ := okOr_bind_eq_ok.mp h
  obtain ⟨hle, h⟩ := require_bind_eq_ok.mp h
  obtain ⟨pushed, hpushed, h⟩ := okOr_bind_eq_ok.mp h
  obtain ⟨-, h⟩ := require_bind_eq_ok.mp h
  obtain ⟨L, hL, h⟩ := bind_eq_ok.mp h
  cases h
  have hsum := sumItems_ok hsum
  have hrem := checkedSub_eq_some.mp hrem
  have hpushed := checkedAdd_eq_some.mp hpushed
  have hpaid := payItems_ok hL
  rw [map_fst_zip_dests hdests] at hpaid
  rw [UInt64.toNat_zero] at hsum
  rw [UInt64.le_iff_toNat_le] at hle
  exact ⟨e, {
    epoch := loadEpoch_eq_ok.mp he
    not_finalized := hfin
    dests := hdests
    total_le := by omega
    epoch' := ⟨pushed, by omega, rfl⟩
    vault := hpaid
    holds := fun _ _ _ => payItems_holds hL
    config := rfl
    claimed := rfl }⟩

/-- A push lacks funds only after its checks passed, where the vault holds less than
its items. -/
theorem handlePushPayouts_insufficientFunds {x : PushInput}
    (h : handlePushPayouts env s x = .error (.token .insufficientFunds)) :
    ∃ e, PushChecked s x e ∧ s.ledger.amount env.vault < itemTotal x.items := by
  unfold handlePushPayouts at h
  obtain ⟨e, he, h⟩ := (bind_eq_error_of_ne liftAnchor_ne_token).mp h
  obtain ⟨_, -, h⟩ := (bind_eq_error_of_ne loadVault_ne_token).mp h
  obtain ⟨-, h⟩ := (require_bind_eq_error (by simp)).mp h
  obtain ⟨-, h⟩ := (require_bind_eq_error (by simp)).mp h
  obtain ⟨-, h⟩ := (require_bind_eq_error (by simp)).mp h
  obtain ⟨hdests, h⟩ := (require_bind_eq_error (by simp)).mp h
  obtain ⟨hfin, h⟩ := (require_bind_eq_error (by simp)).mp h
  obtain ⟨sum, hsum, h⟩ := (bind_eq_error_of_ne sumItems_ne_token).mp h
  obtain ⟨rem, hrem, h⟩ := (okOr_bind_eq_error (by simp)).mp h
  obtain ⟨hle, h⟩ := (require_bind_eq_error (by simp)).mp h
  obtain ⟨pushed, hpushed, h⟩ := (okOr_bind_eq_error (by simp)).mp h
  obtain ⟨-, h⟩ := (require_bind_eq_error (by simp)).mp h
  have hsum := sumItems_ok hsum
  have hrem := checkedSub_eq_some.mp hrem
  rw [UInt64.toNat_zero] at hsum
  rw [UInt64.le_iff_toNat_le] at hle
  refine ⟨e, ⟨loadEpoch_eq_ok.mp he, hfin, hdests, by omega⟩, ?_⟩
  rcases bind_eq_error.mp h with h | ⟨L, -, h⟩
  · rw [← map_fst_zip_dests hdests]
    exact payItems_insufficientFunds h
  · cases h

/-! ### Finalizing -/

/-- What an accepted `finalize_epoch` checked and did. -/
structure FinalizeEffect (s : Distribution) (merkleRoot : Bytes32) (merkleTotal : UInt64)
    (e : Epoch) (s' : Distribution) : Prop where
  epoch : s.epoch = some e
  not_finalized : e.finalized = false
  total_le : e.pushedAmount.toNat + merkleTotal.toNat ≤ e.totalAmount.toNat
  state : s' = { s with epoch := some { e with merkleRoot, merkleTotal, finalized := true } }

theorem handleFinalizeEpoch_ok {keeper : Pubkey} {merkleRoot : Bytes32} {merkleTotal : UInt64}
    {ev : EpochFinalized} (h : handleFinalizeEpoch s keeper merkleRoot merkleTotal = .ok (s', ev)) :
    ∃ e, FinalizeEffect s merkleRoot merkleTotal e s' := by
  unfold handleFinalizeEpoch at h
  obtain ⟨e, he, h⟩ := bind_eq_ok.mp h
  obtain ⟨-, h⟩ := require_bind_eq_ok.mp h
  obtain ⟨-, h⟩ := require_bind_eq_ok.mp h
  obtain ⟨hfin, h⟩ := require_bind_eq_ok.mp h
  obtain ⟨rem, hrem, h⟩ := okOr_bind_eq_ok.mp h
  obtain ⟨hle, h⟩ := require_bind_eq_ok.mp h
  cases h
  have hrem := checkedSub_eq_some.mp hrem
  rw [UInt64.le_iff_toNat_le] at hle
  exact ⟨e, loadEpoch_eq_ok.mp he, hfin, by omega, rfl⟩

/-! ### Claiming -/

/-- What a claim checked before it paid. -/
structure ClaimChecked (env : EpochEnv) (s : Distribution) (x : ClaimInput) (e : Epoch) :
    Prop where
  epoch : s.epoch = some e
  finalized : e.finalized = true
  unclaimed : ∀ c ∈ s.claimed, c.wallet ≠ x.wallet
  open_until : x.now ≤ satAddI64 e.endTs sweepDelaySecs
  proof : verify env.keccak256 x.proof e.merkleRoot
    (leaf env.keccak256 env.epochKey x.wallet x.amount) = true
  total_le : e.claimedAmount.toNat + x.amount.toNat ≤ e.merkleTotal.toNat

/-- What an accepted `claim` checked and did. -/
structure ClaimEffect (env : EpochEnv) (s : Distribution) (x : ClaimInput) (e : Epoch)
    (s' : Distribution) : Prop extends ClaimChecked env s x e where
  epoch' : ∃ newClaimed : UInt64, newClaimed.toNat = e.claimedAmount.toNat + x.amount.toNat ∧
    s'.epoch = some { e with claimedAmount := newClaimed }
  vault : x.wallet ≠ env.epochKey →
    s'.ledger.amount env.vault + x.amount.toNat = s.ledger.amount env.vault
  holds : ∀ key mint owner, s.ledger.Holds key mint owner → s'.ledger.Holds key mint owner
  config : s'.config = s.config
  claimed : s'.claimed =
    { epoch := env.epochKey, wallet := x.wallet, amount := x.amount } :: s.claimed

theorem handleClaim_ok {x : ClaimInput} {ev : Payout} (h : handleClaim env s x = .ok (s', ev)) :
    ∃ e, ClaimEffect env s x e s' := by
  unfold handleClaim at h
  obtain ⟨e, he, h⟩ := bind_eq_ok.mp h
  obtain ⟨_, hunclaimed, h⟩ := bind_eq_ok.mp h
  obtain ⟨_, -, h⟩ := bind_eq_ok.mp h
  obtain ⟨L, hL, h⟩ := bind_eq_ok.mp h
  obtain ⟨-, h⟩ := require_bind_eq_ok.mp h
  obtain ⟨-, h⟩ := require_bind_eq_ok.mp h
  obtain ⟨-, h⟩ := require_bind_eq_ok.mp h
  obtain ⟨hfin, h⟩ := require_bind_eq_ok.mp h
  obtain ⟨hopen, h⟩ := require_bind_eq_ok.mp h
  obtain ⟨hproof, h⟩ := require_bind_eq_ok.mp h
  obtain ⟨newClaimed, hnew, h⟩ := okOr_bind_eq_ok.mp h
  obtain ⟨hle, h⟩ := require_bind_eq_ok.mp h
  obtain ⟨L', htr, h⟩ := bind_eq_ok.mp h
  cases h
  have hnew := checkedAdd_eq_some.mp hnew
  have hkeep := (Ledger.initIfNeeded_ok (liftAnchor_eq_ok.mp hL)).2.1 env.vault
  rw [UInt64.le_iff_toNat_le, hnew] at hle
  exact ⟨e, {
    epoch := loadEpoch_eq_ok.mp he
    finalized := hfin
    unclaimed := checkUnclaimed_eq_ok.mp hunclaimed
    open_until := hopen
    proof := hproof
    total_le := hle
    epoch' := ⟨newClaimed, hnew, rfl⟩
    vault := by
      intro hwallet
      rw [← hkeep]
      exact (Ledger.transfer_ok (liftToken_eq_ok.mp htr) (env.ata_ne_vault _ hwallet).symm).1
    holds := fun _ _ _ hs =>
      (hs.initIfNeeded (liftAnchor_eq_ok.mp hL)).transfer (liftToken_eq_ok.mp htr)
    config := rfl
    claimed := rfl }⟩

/-- A claim lacks funds only after its checks passed, where the vault holds less than
its amount. -/
theorem handleClaim_insufficientFunds {x : ClaimInput}
    (h : handleClaim env s x = .error (.token .insufficientFunds)) :
    ∃ e, ClaimChecked env s x e ∧ s.ledger.amount env.vault < x.amount.toNat := by
  unfold handleClaim at h
  obtain ⟨e, he, h⟩ := (bind_eq_error_of_ne liftAnchor_ne_token).mp h
  obtain ⟨_, hunclaimed, h⟩ := (bind_eq_error_of_ne liftAnchor_ne_token).mp h
  obtain ⟨_, -, h⟩ := (bind_eq_error_of_ne loadVault_ne_token).mp h
  obtain ⟨L, hL, h⟩ := (bind_eq_error_of_ne liftAnchor_ne_token).mp h
  obtain ⟨-, h⟩ := (require_bind_eq_error (by simp)).mp h
  obtain ⟨-, h⟩ := (require_bind_eq_error (by simp)).mp h
  obtain ⟨-, h⟩ := (require_bind_eq_error (by simp)).mp h
  obtain ⟨hfin, h⟩ := (require_bind_eq_error (by simp)).mp h
  obtain ⟨hopen, h⟩ := (require_bind_eq_error (by simp)).mp h
  obtain ⟨hproof, h⟩ := (require_bind_eq_error (by simp)).mp h
  obtain ⟨newClaimed, hnew, h⟩ := (okOr_bind_eq_error (by simp)).mp h
  obtain ⟨hle, h⟩ := (require_bind_eq_error (by simp)).mp h
  have hkeep := (Ledger.initIfNeeded_ok (liftAnchor_eq_ok.mp hL)).2.1 env.vault
  rw [UInt64.le_iff_toNat_le, checkedAdd_eq_some.mp hnew] at hle
  refine ⟨e, ⟨loadEpoch_eq_ok.mp he, hfin, checkUnclaimed_eq_ok.mp hunclaimed, hopen, hproof, hle⟩,
    ?_⟩
  rcases bind_eq_error.mp h with h | ⟨L', -, h⟩
  · obtain ⟨t, ht, heq⟩ := liftToken_eq_error.mp h
    cases heq
    rw [← hkeep]
    exact Ledger.lt_of_insufficientFunds ht
  · cases h

/-! ### Sweeping -/

/-- What an accepted `sweep_unclaimed` checked and did. -/
structure SweepEffect (env : EpochEnv) (s : Distribution) (x : SweepInput) (e : Epoch)
    (amount : UInt64) (s' : Distribution) : Prop where
  epoch : s.epoch = some e
  closed : satAddI64 e.endTs sweepDelaySecs < x.now
  epoch' : s'.epoch = some { e with finalized := true }
  emptied : s'.ledger.amount env.vault = 0
  amount : amount.toNat = s.ledger.amount env.vault
  holds : ∀ key mint owner, s.ledger.Holds key mint owner → s'.ledger.Holds key mint owner
  config : s'.config = s.config
  claimed : s'.claimed = s.claimed

theorem handleSweepUnclaimed_ok {x : SweepInput} {ev : EpochSwept}
    (h : handleSweepUnclaimed env s x = .ok (s', ev)) :
    ∃ e, SweepEffect env s x e ev.amount s' := by
  unfold handleSweepUnclaimed at h
  obtain ⟨-, h⟩ := require_bind_eq_ok.mp h
  obtain ⟨e, he, h⟩ := bind_eq_ok.mp h
  obtain ⟨vault, hvault, h⟩ := bind_eq_ok.mp h
  obtain ⟨_, -, h⟩ := bind_eq_ok.mp h
  obtain ⟨hclosed, h⟩ := require_bind_eq_ok.mp h
  obtain ⟨htreasury, h⟩ := require_bind_eq_ok.mp h
  obtain ⟨L, hL, h⟩ := bind_eq_ok.mp h
  cases h
  have hamount := Ledger.amount_of_some (loadVault_eq_ok.mp hvault).1
  refine ⟨e, loadEpoch_eq_ok.mp he, hclosed, rfl, ?_, hamount.symm, ?_, rfl, rfl⟩
  swap
  · intro key mint owner hs
    change L.Holds key mint owner
    split_ifs at hL
    · exact hs.transfer (liftToken_eq_ok.mp hL)
    · cases hL
      exact hs
  by_cases hpos : 0 < vault.amount
  · rw [if_pos hpos, liftToken_eq_ok] at hL
    have hne : env.vault ≠ x.treasury := by
      rw [htreasury]
      exact (env.treasury_ne_vault _).symm
    have hpaid := (Ledger.transfer_ok hL hne).1
    change L.amount env.vault = 0
    omega
  · rw [if_neg hpos] at hL
    cases hL
    rw [UInt64.lt_iff_toNat_lt, UInt64.toNat_zero, Nat.not_lt] at hpos
    change s.ledger.amount env.vault = 0
    omega

end IceMarkets.Distributor
