import IceMarkets.Distributor.Effect

/-!
# IceMarkets.Distributor.Record

What `open_epoch`, `push_payouts` and `finalize_epoch` check and change of the epoch
account alone.

Off-chain code sees epochs through this account. Each record function is its handler
without the token accounts: an accepted instruction is an accepted record
(`handlePushPayouts_record` and the like), and a push whose record is accepted can
only fail over the accounts it pays (`handlePushPayouts_of_record`).
-/

namespace IceMarkets.Distributor

/-! ### Records -/

/-- The epoch account `open_epoch` creates. -/
def openedEpoch (coinMint : Pubkey) (args : OpenEpochArgs) : Epoch where
  pool := args.pool
  index := args.index
  coinMint := coinMint
  startTs := args.startTs
  endTs := args.endTs
  totalAmount := args.totalAmount
  pushedAmount := 0
  merkleRoot := Bytes32.fill 0
  merkleTotal := 0
  claimedAmount := 0
  eligibleHolders := args.eligibleHolders
  twabTotal := args.twabTotal
  finalized := false

def recordOpen (cfg : DistConfig) (coinMint : Pubkey) (now : Int) (keeper : Pubkey)
    (args : OpenEpochArgs) : DistResult Epoch := do
  require (cfg.paused = false) .paused
  require (cfg.isAdminOrKeeper keeper = true) .unauthorized
  require (args.startTs < args.endTs) .invalidWindow
  require (args.endTs ≤ now ∧ satSubI64 now maxEpochAgeSecs ≤ args.endTs) .invalidWindow
  require (0 < args.totalAmount) .zeroAmount
  .ok (openedEpoch coinMint args)

/-- The amount, remainder and cap checks of a push: the new `pushed_amount`. -/
def pushedAfter (cfg : DistConfig) (e : Epoch) (items : List PayoutItem) : DistResult UInt64 := do
  let sum ← sumItems items 0
  let remainder ← okOr (checkedSub e.totalAmount e.pushedAmount) .mathOverflow
  require (sum ≤ remainder) .exceedsRemainder
  let newPushed ← okOr (checkedAdd e.pushedAmount sum) .mathOverflow
  require (newPushed.toNat ≤ pushCap cfg e) .pushCapExceeded
  .ok newPushed

def recordPush (cfg : DistConfig) (e : Epoch) (keeper : Pubkey) (items : List PayoutItem) :
    DistResult Epoch := do
  require (cfg.paused = false) .paused
  require (cfg.isAdminOrKeeper keeper = true) .unauthorized
  require (items.length ≤ maxPushItems) .tooManyItems
  require (e.finalized = false) .alreadyFinalized
  let newPushed ← pushedAfter cfg e items
  .ok { e with pushedAmount := newPushed }

def recordFinalize (cfg : DistConfig) (e : Epoch) (keeper : Pubkey) (merkleRoot : Bytes32)
    (merkleTotal : UInt64) : DistResult Epoch := do
  require (cfg.paused = false) .paused
  require (cfg.isAdminOrKeeper keeper = true) .unauthorized
  require (e.finalized = false) .alreadyFinalized
  let remainder ← okOr (checkedSub e.totalAmount e.pushedAmount) .mathOverflow
  require (merkleTotal ≤ remainder) .exceedsRemainder
  .ok { e with merkleRoot, merkleTotal, finalized := true }

/-! ### What an accepted record says -/

section Accepted

variable {cfg : DistConfig} {e e' : Epoch} {keeper : Pubkey}

theorem recordOpen_ok {coinMint : Pubkey} {now : Int} {args : OpenEpochArgs}
    (h : recordOpen cfg coinMint now keeper args = .ok e') : e' = openedEpoch coinMint args := by
  unfold recordOpen at h
  obtain ⟨-, h⟩ := require_bind_eq_ok.mp h
  obtain ⟨-, h⟩ := require_bind_eq_ok.mp h
  obtain ⟨-, h⟩ := require_bind_eq_ok.mp h
  obtain ⟨-, h⟩ := require_bind_eq_ok.mp h
  obtain ⟨-, h⟩ := require_bind_eq_ok.mp h
  exact (Except.ok.inj h).symm

/-- A push adds its items to what was pushed, within the total. -/
theorem pushedAfter_ok {items : List PayoutItem} {pushed : UInt64}
    (h : pushedAfter cfg e items = .ok pushed) :
    pushed.toNat = e.pushedAmount.toNat + itemTotal items ∧ pushed.toNat ≤ e.totalAmount.toNat := by
  unfold pushedAfter at h
  obtain ⟨sum, hsum, h⟩ := bind_eq_ok.mp h
  obtain ⟨rem, hrem, h⟩ := okOr_bind_eq_ok.mp h
  obtain ⟨hle, h⟩ := require_bind_eq_ok.mp h
  obtain ⟨pushed, hpushed, h⟩ := okOr_bind_eq_ok.mp h
  obtain ⟨-, h⟩ := require_bind_eq_ok.mp h
  cases h
  have hsum := sumItems_ok hsum
  have hrem := checkedSub_eq_some.mp hrem
  have hpushed := checkedAdd_eq_some.mp hpushed
  rw [UInt64.toNat_zero] at hsum
  rw [UInt64.le_iff_toNat_le] at hle
  omega

theorem recordPush_ok {items : List PayoutItem} (h : recordPush cfg e keeper items = .ok e') :
    e.finalized = false ∧ ∃ pushed : UInt64, pushedAfter cfg e items = .ok pushed ∧
      e' = { e with pushedAmount := pushed } := by
  unfold recordPush at h
  obtain ⟨-, h⟩ := require_bind_eq_ok.mp h
  obtain ⟨-, h⟩ := require_bind_eq_ok.mp h
  obtain ⟨-, h⟩ := require_bind_eq_ok.mp h
  obtain ⟨hfin, h⟩ := require_bind_eq_ok.mp h
  obtain ⟨pushed, hpushed, h⟩ := bind_eq_ok.mp h
  exact ⟨hfin, pushed, hpushed, (Except.ok.inj h).symm⟩

theorem recordFinalize_ok {merkleRoot : Bytes32} {merkleTotal : UInt64}
    (h : recordFinalize cfg e keeper merkleRoot merkleTotal = .ok e') :
    e.finalized = false ∧ e.pushedAmount.toNat + merkleTotal.toNat ≤ e.totalAmount.toNat ∧
      e' = { e with merkleRoot, merkleTotal, finalized := true } := by
  unfold recordFinalize at h
  obtain ⟨-, h⟩ := require_bind_eq_ok.mp h
  obtain ⟨-, h⟩ := require_bind_eq_ok.mp h
  obtain ⟨hfin, h⟩ := require_bind_eq_ok.mp h
  obtain ⟨rem, hrem, h⟩ := okOr_bind_eq_ok.mp h
  obtain ⟨hle, h⟩ := require_bind_eq_ok.mp h
  have hrem := checkedSub_eq_some.mp hrem
  rw [UInt64.le_iff_toNat_le] at hle
  exact ⟨hfin, by omega, (Except.ok.inj h).symm⟩

end Accepted

/-! ### The records of the handlers -/

section Handlers

variable {env : EpochEnv} {s s' : Distribution}

theorem handleOpenEpoch_record {x : OpenEpochInput} {ev : EpochOpened}
    (h : handleOpenEpoch env s x = .ok (s', ev)) : s.epoch = none ∧
      ∃ e, recordOpen s.config env.coinMint x.now x.keeper x.args = .ok e ∧ s'.epoch = some e := by
  have hfresh := (handleOpenEpoch_ok h).fresh
  unfold handleOpenEpoch at h
  obtain ⟨_, -, h⟩ := bind_eq_ok.mp h
  obtain ⟨_, -, h⟩ := bind_eq_ok.mp h
  obtain ⟨L, -, h⟩ := bind_eq_ok.mp h
  obtain ⟨source, -, h⟩ := bind_eq_ok.mp h
  obtain ⟨hpaused, h⟩ := require_bind_eq_ok.mp h
  obtain ⟨hauth, h⟩ := require_bind_eq_ok.mp h
  obtain ⟨hwindow, h⟩ := require_bind_eq_ok.mp h
  obtain ⟨hended, h⟩ := require_bind_eq_ok.mp h
  obtain ⟨hpos, h⟩ := require_bind_eq_ok.mp h
  obtain ⟨L', -, h⟩ := bind_eq_ok.mp h
  obtain ⟨-, h⟩ := require_bind_eq_ok.mp h
  cases h
  refine ⟨hfresh, openedEpoch env.coinMint x.args, ?_, rfl⟩
  unfold recordOpen
  rw [require_of hpaused, require_of hauth, require_of hwindow, require_of hended, require_of hpos]
  rfl

theorem handlePushPayouts_record {x : PushInput} {evs : List Payout}
    (h : handlePushPayouts env s x = .ok (s', evs)) :
    ∃ e e', s.epoch = some e ∧ recordPush s.config e x.keeper x.items = .ok e' ∧
      s'.epoch = some e' := by
  unfold handlePushPayouts at h
  obtain ⟨e, he, h⟩ := bind_eq_ok.mp h
  obtain ⟨_, -, h⟩ := bind_eq_ok.mp h
  obtain ⟨hpaused, h⟩ := require_bind_eq_ok.mp h
  obtain ⟨hauth, h⟩ := require_bind_eq_ok.mp h
  obtain ⟨hlen, h⟩ := require_bind_eq_ok.mp h
  obtain ⟨-, h⟩ := require_bind_eq_ok.mp h
  obtain ⟨hfin, h⟩ := require_bind_eq_ok.mp h
  obtain ⟨sum, hsum, h⟩ := bind_eq_ok.mp h
  obtain ⟨rem, hrem, h⟩ := okOr_bind_eq_ok.mp h
  obtain ⟨hle, h⟩ := require_bind_eq_ok.mp h
  obtain ⟨pushed, hpushed, h⟩ := okOr_bind_eq_ok.mp h
  obtain ⟨hcap, h⟩ := require_bind_eq_ok.mp h
  obtain ⟨L, -, h⟩ := bind_eq_ok.mp h
  cases h
  refine ⟨e, { e with pushedAmount := pushed }, loadEpoch_eq_ok.mp he, ?_, rfl⟩
  unfold recordPush pushedAfter
  rw [require_of hpaused, require_of hauth, require_of hlen, require_of hfin, hsum]
  simp only [ok_bind, okOr, hrem, require_of hle, hpushed, require_of hcap]

/-- A push whose record is accepted pays its items, or fails over the accounts they name. -/
theorem handlePushPayouts_of_record {x : PushInput} {e e' : Epoch} {vault : TokenAccount}
    (he : s.epoch = some e) (hvault : loadVault env s.ledger = .ok vault)
    (hdests : x.dests.length = x.items.length)
    (h : recordPush s.config e x.keeper x.items = .ok e') :
    handlePushPayouts env s x = (payItems env (x.items.zip x.dests) s.ledger).map fun L =>
      ({ s with epoch := some e', ledger := L },
        x.items.map fun it =>
          { pool := e.pool, epoch := env.epochKey, wallet := it.wallet, coinMint := e.coinMint
            amount := it.amount, kind := .push }) := by
  unfold recordPush pushedAfter at h
  obtain ⟨hpaused, h⟩ := require_bind_eq_ok.mp h
  obtain ⟨hauth, h⟩ := require_bind_eq_ok.mp h
  obtain ⟨hlen, h⟩ := require_bind_eq_ok.mp h
  obtain ⟨hfin, h⟩ := require_bind_eq_ok.mp h
  obtain ⟨pushed, hafter, h⟩ := bind_eq_ok.mp h
  obtain ⟨sum, hsum, hafter⟩ := bind_eq_ok.mp hafter
  obtain ⟨rem, hrem, hafter⟩ := okOr_bind_eq_ok.mp hafter
  obtain ⟨hle, hafter⟩ := require_bind_eq_ok.mp hafter
  obtain ⟨pushed', hpushed, hafter⟩ := okOr_bind_eq_ok.mp hafter
  obtain ⟨hcap, hafter⟩ := require_bind_eq_ok.mp hafter
  cases hafter
  cases h
  unfold handlePushPayouts
  rw [loadEpoch_eq_ok.mpr he]
  simp only [ok_bind, hvault, require_of hpaused, require_of hauth, require_of hlen,
    require_of hdests, require_of hfin, hsum, hrem, okOr, require_of hle, hpushed, require_of hcap]
  cases payItems env (x.items.zip x.dests) s.ledger with
  | error err => rfl
  | ok L => rfl

theorem handleFinalizeEpoch_record {keeper : Pubkey} {merkleRoot : Bytes32} {merkleTotal : UInt64}
    {ev : EpochFinalized} (h : handleFinalizeEpoch s keeper merkleRoot merkleTotal = .ok (s', ev)) :
    ∃ e e', s.epoch = some e ∧
      recordFinalize s.config e keeper merkleRoot merkleTotal = .ok e' ∧ s'.epoch = some e' := by
  unfold handleFinalizeEpoch at h
  obtain ⟨e, he, h⟩ := bind_eq_ok.mp h
  obtain ⟨hpaused, h⟩ := require_bind_eq_ok.mp h
  obtain ⟨hauth, h⟩ := require_bind_eq_ok.mp h
  obtain ⟨hfin, h⟩ := require_bind_eq_ok.mp h
  obtain ⟨rem, hrem, h⟩ := okOr_bind_eq_ok.mp h
  obtain ⟨hle, h⟩ := require_bind_eq_ok.mp h
  cases h
  refine ⟨e, { e with merkleRoot, merkleTotal, finalized := true }, loadEpoch_eq_ok.mp he, ?_, rfl⟩
  unfold recordFinalize
  rw [require_of hpaused, require_of hauth, require_of hfin]
  simp only [ok_bind, okOr, hrem, require_of hle]

end Handlers

end IceMarkets.Distributor
