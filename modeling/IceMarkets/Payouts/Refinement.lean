import IceMarkets.Payouts.Steps
import IceMarkets.Distributor.Accounting

/-!
# IceMarkets.Payouts.Refinement

Each epoch of the system is an epoch of `IceMarkets.Distributor.Run`, which knows of nothing but
its own instructions: what the router, the other epochs and the rest of the chain do is to it
one `external` step after the other, and never takes from its vault.
-/

namespace IceMarkets.Payouts

open Lts Distributor
open FeeRouter (RouterProgram ProgramStep)

section

variable {env : PayoutEnv} {s s' : PayoutSystem} {id : EpochId} {mint : Pubkey}

/-- A step as one epoch sees it. -/
def PayoutAct.report (env : PayoutEnv) (id : EpochId) (mint : Pubkey) (act : PayoutAct) : Report :=
  let elsewhere := Report.external (act.given env (.epoch id mint))
  match act with
  | opened id' _ _ _ total => if id' = id then .opened total else elsewhere
  | pushed id' _ _ items _ => if id' = id then .pushed items else elsewhere
  | finalized id' _ merkleRoot merkleTotal =>
      if id' = id then .finalized merkleRoot merkleTotal else elsewhere
  | claimed id' _ wallet amount => if id' = id then .claimed wallet amount else elsewhere
  | swept id' _ _ _ amount => if id' = id then .swept amount else elsewhere
  | configured _ config => .configured config
  | router _ | external _ => elsewhere

/-- The step sweeps the epoch. -/
def PayoutAct.Sweeps (id : EpochId) : PayoutAct → Prop
  | swept id' _ _ _ _ => id' = id
  | _ => False

def eventOf (env : PayoutEnv) (id : EpochId) (mint : Pubkey) (a : Int × PayoutAct) : Event :=
  ⟨a.1, a.2.report env id mint⟩

/-- What the epoch sees of a step is a sweep where the step sweeps it. -/
theorem PayoutAct.sweeps_entry {a : Int × PayoutAct} (h : a.2.Sweeps id) :
    (eventOf env id mint a).entry.2.Sweeps := by
  obtain ⟨now, act⟩ := a
  cases act with
  | swept id' _ _ _ amount =>
      obtain rfl : id' = id := h
      simp [eventOf, report, Event.entry, Report.entry, Escrow.Entry.Sweeps]
  | router _ | opened _ _ _ _ _ | pushed _ _ _ _ _ | finalized _ _ _ _ | claimed _ _ _ _
  | configured _ _ | external _ => exact h.elim

theorem PayoutAct.sweepFree_entry {a : Int × PayoutAct} (h : ¬ a.2.Sweeps id) :
    (eventOf env id mint a).entry.2.SweepFree := by
  obtain ⟨now, act⟩ := a
  unfold eventOf Event.entry report
  cases act with
  | swept id' _ _ _ amount =>
      have hne : id' ≠ id := h
      dsimp only
      rw [if_neg hne]
      trivial
  | router _ | configured _ _ | external _ => trivial
  | opened _ _ _ _ _ | pushed _ _ _ _ _ | finalized _ _ _ _ | claimed _ _ _ _ =>
      dsimp only
      split_ifs <;> trivial

/-! ### The router matters to openings only -/

section Congr

variable (r r' : RouterProgram) {d : Distribution}

theorem payItems_congr (pays : List (PayoutItem × DestInfo)) (L : Ledger) :
    payItems (env.epoch r id mint) pays L = payItems (env.epoch r' id mint) pays L := by
  induction pays generalizing L with
  | nil => rfl
  | cons pay pays ih =>
      unfold payItems
      simp only [ih]
      rfl

theorem handlePushPayouts_congr {x : PushInput} :
    handlePushPayouts (env.epoch r id mint) d x = handlePushPayouts (env.epoch r' id mint) d x := by
  unfold handlePushPayouts
  simp only [payItems_congr r r']
  rfl

theorem handleClaim_congr {x : ClaimInput} :
    handleClaim (env.epoch r id mint) d x = handleClaim (env.epoch r' id mint) d x := rfl

theorem handleSweepUnclaimed_congr {x : SweepInput} :
    handleSweepUnclaimed (env.epoch r id mint) d x =
      handleSweepUnclaimed (env.epoch r' id mint) d x := rfl

end Congr

/-! ### Steps -/

section Steps

variable {a : Int × PayoutAct} {d : Distribution}

theorem store_distribution (h : d.config = s.config) : (s.store id d).distribution id = d := by
  unfold PayoutSystem.distribution PayoutSystem.store
  rw [← h]
  simp

/-- An instruction on another epoch leaves this one's accounts. -/
theorem store_distribution_of_ne {id' : EpochId} (h : id ≠ id') :
    (s.store id' d).distribution id = { s.distribution id with ledger := d.ledger } := by
  unfold PayoutSystem.distribution PayoutSystem.store
  simp [h]

/-- What is not taken from the epoch's vault is given to it. -/
theorem external_of_posted {act : PayoutAct} (h : Posted env s act s')
    (hknown : env.isEpoch id mint = true) (htaken : act.taken (.epoch id mint) = 0)
    (hearned : act.earned (.epoch id mint) = 0) (r : RouterProgram) :
    External (env.epoch r id mint) s.router.ledger (act.given env (.epoch id mint))
      s'.router.ledger where
  vault := by
    have hamount := h.amount (.epoch id mint) hknown
    rw [htaken, hearned, Nat.zero_add] at hamount
    exact hamount
  holds m owner hL := h.holds id mint hknown m owner hL

theorem earned_epoch (act : PayoutAct) : act.earned (.epoch id mint) = 0 := by
  cases act <;> rfl

/-- Every step of the system is a step of each epoch. -/
theorem PayoutStep.epoch (hstep : PayoutStep env s a s') (hinv : Inv env s)
    (hknown : env.isEpoch id mint = true) (hmint : ∀ e, s'.epochs id = some e → e.coinMint = mint)
    {r : RouterProgram} (hr : s.epochs id = none → s'.epochs id ≠ none → r = s.router) :
    Step (env.epoch r id mint) (s.distribution id) (eventOf env id mint a)
      (s'.distribution id) := by
  have hposted := hstep.posted hinv
  -- what happens elsewhere
  have helsewhere : ∀ {id' : EpochId} {d : Distribution}, s' = s.store id' d → id ≠ id' →
      a.2.taken (.epoch id mint) = 0 →
      Step (env.epoch r id mint) (s.distribution id)
        ⟨a.1, .external (a.2.given env (.epoch id mint))⟩ (s'.distribution id) := by
    intro id' d hs hne htaken
    have hext := external_of_posted hposted hknown htaken (earned_epoch _) r
    subst hs
    rw [store_distribution_of_ne hne]
    exact .elsewhere hext
  cases hstep.done with
  | router _ _ =>
      exact .elsewhere (external_of_posted hposted hknown rfl rfl r)
  | @opened id' mint' x ev d hid hknown' hsigns h =>
      by_cases hne : id = id'
      · subst hne
        have heff := handleOpenEpoch_ok h
        obtain ⟨e, he, -⟩ := heff.epoch
        have hopened : (s.store id d).epochs id = some e := by rw [store_epochs, he]
        have hmint' : e.coinMint = mint' := (handleOpenEpoch_moves h).coinMint e he
        obtain rfl : mint' = mint := hmint'.symm.trans (hmint e hopened)
        obtain rfl := hr heff.fresh (by rw [hopened]; simp)
        rw [store_distribution heff.config]
        simp only [eventOf, PayoutAct.report, if_pos]
        exact .openEpoch h
      · have hstep' := helsewhere rfl hne (by simp [PayoutAct.taken])
        simpa only [eventOf, PayoutAct.report, if_neg (Ne.symm hne)] using hstep'
  | @pushed now id' e x evs d he h =>
      by_cases hne : id = id'
      · subst hne
        obtain ⟨e₀, heff⟩ := handlePushPayouts_ok h
        obtain ⟨pushed, -, he'⟩ := heff.epoch'
        cases he.symm.trans heff.epoch
        have hmint' := hmint _ ((store_epochs id d).trans he')
        dsimp only at hmint'
        rw [hmint', handlePushPayouts_congr _ r] at h
        rw [store_distribution heff.config]
        simp only [eventOf, PayoutAct.report, if_pos]
        exact .pushPayouts h
      · have hstep' := helsewhere rfl hne (by simp [PayoutAct.taken, hne])
        simpa only [eventOf, PayoutAct.report, if_neg (Ne.symm hne)] using hstep'
  | @finalized now id' keeper merkleRoot merkleTotal ev d h =>
      by_cases hne : id = id'
      · subst hne
        obtain ⟨e, heff⟩ := handleFinalizeEpoch_ok h
        rw [store_distribution (congrArg Distribution.config heff.state)]
        simp only [eventOf, PayoutAct.report, if_pos]
        exact .finalizeEpoch h
      · have hstep' := helsewhere rfl hne rfl
        simpa only [eventOf, PayoutAct.report, if_neg (Ne.symm hne)] using hstep'
  | @claimed id' e x ev d he hsigner h =>
      by_cases hne : id = id'
      · subst hne
        obtain ⟨e₀, heff⟩ := handleClaim_ok h
        obtain ⟨newClaimed, -, he'⟩ := heff.epoch'
        cases he.symm.trans heff.epoch
        have hmint' := hmint _ ((store_epochs id d).trans he')
        dsimp only at hmint'
        rw [hmint', handleClaim_congr _ r] at h
        rw [store_distribution heff.config]
        simp only [eventOf, PayoutAct.report, if_pos]
        exact .claim h (env.signer_epoch x.wallet id.pool id.index hsigner)
      · have hstep' := helsewhere rfl hne (by simp [PayoutAct.taken, hne])
        simpa only [eventOf, PayoutAct.report, if_neg (Ne.symm hne)] using hstep'
  | @swept id' e x ev d he h =>
      by_cases hne : id = id'
      · subst hne
        obtain ⟨e₀, heff⟩ := handleSweepUnclaimed_ok h
        cases he.symm.trans heff.epoch
        have hmint' := hmint _ ((store_epochs id d).trans heff.epoch')
        dsimp only at hmint'
        rw [hmint', handleSweepUnclaimed_congr _ r] at h
        rw [store_distribution heff.config]
        simp only [eventOf, PayoutAct.report, if_pos]
        exact .sweepUnclaimed h
      · have hstep' := helsewhere rfl hne (by simp [PayoutAct.taken, hne])
        simpa only [eventOf, PayoutAct.report, if_neg (Ne.symm hne)] using hstep'
  | configured _ => exact .configure
  | external _ => exact .elsewhere (external_of_posted hposted hknown rfl rfl r)

end Steps

/-! ### Runs -/

section Runs

variable {p p' : PayoutSystem × Int} {tr : List (Int × PayoutAct)}

/-- An epoch keeps its coin and total. -/
theorem PayoutRun.epochKept (h : PayoutRun env p tr p') {e : Epoch}
    (he : p.1.epochs id = some e) : ∃ e', p'.1.epochs id = some e' ∧ e'.coinMint = e.coinMint ∧
      e'.totalAmount = e.totalAmount := by
  induction h generalizing e with
  | nil p => exact ⟨e, he, rfl, rfl⟩
  | cons head _ ih =>
      obtain ⟨-, e₁, he₁, hmint, htotal⟩ := (head.step.epochKept id).kept e he
      obtain ⟨e₂, he₂, hmint₂, htotal₂⟩ := ih he₁
      exact ⟨e₂, he₂, hmint₂.trans hmint, htotal₂.trans htotal⟩

/-- The coin of an epoch at the end of a run was its coin before. -/
theorem PayoutRun.mint_of_end (h : PayoutRun env p tr p')
    (hmint : ∀ e, p'.1.epochs id = some e → e.coinMint = mint) :
    ∀ e, p.1.epochs id = some e → e.coinMint = mint := by
  intro e he
  obtain ⟨e', he', heq, -⟩ := h.epochKept he
  rw [← heq]
  exact hmint e' he'

/-- From its opening on, no state of the router matters to an epoch. -/
theorem PayoutRun.epoch_of_opened (h : PayoutRun env p tr p') (hinv : Inv env p.1)
    (hknown : env.isEpoch id mint = true)
    (hmint : ∀ e, p'.1.epochs id = some e → e.coinMint = mint) (hopen : p.1.epochs id ≠ none)
    (r : RouterProgram) :
    EpochRun (env.epoch r id mint) (p.1.distribution id, p.2) (tr.map (eventOf env id mint))
      (p'.1.distribution id, p'.2) := by
  induction h with
  | nil p => exact .nil _
  | @cons p q p' a tr head tail ih =>
      obtain ⟨e, he⟩ := Option.ne_none_iff_exists'.mp hopen
      obtain ⟨-, e', he', -⟩ := (head.step.epochKept id).kept e he
      have hstep := head.step.epoch (r := r) hinv hknown (PayoutRun.mint_of_end tail hmint)
        fun hnone => absurd hnone hopen
      exact .cons ⟨hstep, head.le_now, head.clock⟩
        (ih (head.step.inv hinv) hmint (by rw [he']; simp))

/-- A run of the system is, for each epoch and its coin, a run of that epoch alone: the router
is in the state it was in when the epoch was opened, and all else that happens is outside. -/
theorem PayoutRun.epoch (h : PayoutRun env p tr p') (hinv : Inv env p.1)
    (hknown : env.isEpoch id mint = true)
    (hmint : ∀ e, p'.1.epochs id = some e → e.coinMint = mint) :
    ∃ r, EpochRun (env.epoch r id mint) (p.1.distribution id, p.2)
      (tr.map (eventOf env id mint)) (p'.1.distribution id, p'.2) := by
  induction h with
  | nil p => exact ⟨p.1.router, .nil _⟩
  | @cons p q p' a tr head tail ih =>
      have hmint' := PayoutRun.mint_of_end tail hmint
      by_cases hopen : q.1.epochs id = none
      · -- not opened by this step
        obtain ⟨r, hrun⟩ := ih (head.step.inv hinv) hmint
        have hstep := head.step.epoch (r := r) hinv hknown hmint'
          fun _ hsome => absurd hopen hsome
        exact ⟨r, .cons ⟨hstep, head.le_now, head.clock⟩ hrun⟩
      · have hstep := head.step.epoch (r := p.1.router) hinv hknown hmint' fun _ _ => rfl
        exact ⟨p.1.router, .cons ⟨hstep, head.le_now, head.clock⟩
          (PayoutRun.epoch_of_opened tail (head.step.inv hinv) hknown hmint hopen _)⟩

end Runs

/-! ### From the start -/

/-- Both programs after their initialisation. Nobody can own an epoch's associated account but
the epoch, whoever created it. -/
structure PayoutSystem.Fresh (env : PayoutEnv) (s : PayoutSystem) : Prop where
  router : s.router.Fresh env.router
  config : ∃ program programData payer feeRouter bps,
    handleInitialize env.router.loader env.id program programData payer feeRouter bps = .ok s.config
  epochs : ∀ id, s.epochs id = none
  claimed : ∀ id, s.claimed id = []
  owned : ∀ id mint, env.isEpoch id mint = true →
    s.router.ledger.OwnedBy (env.vault id mint) (env.epochKey id)

theorem PayoutSystem.Fresh.inv (h : s.Fresh env) : Inv env s where
  splits := h.router.splits
  owned g hg := by
    cases g with
    | router v => exact h.router.recv v hg
    | epoch id mint => exact h.owned id mint hg
  known id e he := by
    rw [h.epochs id] at he
    cases he

end

/-! ### A sample run -/

namespace PayoutSample

open FeeRouter.ProgramSample (sampleKey derived admin creator coin base pool programs programData
  accounts claimInput)

/-- The first epoch of the pool. -/
def first : EpochId := { pool, index := 0 }

def epochKey : Pubkey := sampleKey 20 0

def vaultKey : Pubkey := sampleKey 21 0

/-- Pushed to, in an account of its own. -/
def walletA : Pubkey := sampleKey 8 21

/-- Claims. -/
def walletB : Pubkey := sampleKey 8 22

def accountA : Pubkey := sampleKey 8 23

/-- The leaf of `walletB`'s 200 units. -/
def root : Bytes32 :=
  ⟨[144, 174, 252, 68, 161, 143, 109, 102, 175, 115, 7, 131, 27, 120, 23, 134, 163, 53, 120, 44,
    79, 96, 42, 53, 196, 57, 249, 24, 106, 181, 252, 186], by decide⟩

/-- Other owners have their associated accounts at their own keys. -/
def ata (owner : Pubkey) : Pubkey := Equiv.swap epochKey vaultKey owner

theorem ata_of_head {owner : Pubkey} (h : owner.bytes.head? = some 8) : ata owner = owner := by
  refine Equiv.swap_apply_of_ne_of_ne ?_ ?_ <;>
    · intro heq
      rw [heq] at h
      cases h

/-- There is one epoch; signers are the keys that start with an eight. -/
def env : PayoutEnv where
  router := FeeRouter.ProgramSample.env
  id := programs.distributor
  tokenProgram := sampleKey 9 8
  epochAddress := fun _ _ => epochKey
  ata := fun owner _ => ata owner
  routerPoolState := fun _ => derived 5
  routerTreasury := fun _ => derived 4
  -- the digest the claim needs, of all keccak256 digests
  keccak256 := fun bytes =>
    if bytes = epochKey.bytes ++ walletB.bytes ++ toLeBytes 200 then root else Bytes32.fill 0
  isEpoch := fun id mint => decide (id = first ∧ mint = coin)
  isSigner := fun key => key.bytes.head? = some 8
  poolState_router := fun _ => rfl
  treasury_router := fun _ => rfl
  ata_epoch := fun _ _ _ _ h => (Equiv.swap epochKey vaultKey).injective h
  treasury_ne := fun _ mint _ _ h => by
    have hvault : ata epochKey = vaultKey := Equiv.swap_apply_left ..
    rw [hvault] at h
    cases congrArg (fun key : Pubkey => key.bytes.head?) h
  vault_injective := fun id id' mint mint' h h' _ => by
    obtain ⟨rfl, rfl⟩ := of_decide_eq_true h
    obtain ⟨rfl, rfl⟩ := of_decide_eq_true h'
    exact ⟨rfl, rfl⟩
  vault_ne := fun id mint v _ _ h => by
    have hvault : ata epochKey = vaultKey := Equiv.swap_apply_left ..
    rw [hvault] at h
    cases v <;> cases congrArg (fun key : Pubkey => key.bytes.head?) h
  signer_epoch := fun key _ _ h heq => by
    have hhead := of_decide_eq_true h
    rw [heq] at hhead
    cases hhead
  signer_router := fun key v h heq => by
    have hhead := of_decide_eq_true h
    rw [heq] at hhead
    cases v <;> cases hhead
  signer_distAuth := fun key h heq => by
    have hhead := of_decide_eq_true h
    rw [heq] at hhead
    cases hhead
  ata_vault := fun wallet _ _ _ h _ heq => by
    have hhead := of_decide_eq_true h
    have hvault : ata epochKey = vaultKey := Equiv.swap_apply_left ..
    rw [ata_of_head hhead, hvault] at heq
    rw [heq] at hhead
    cases hhead
  ata_router := fun wallet _ v h _ heq => by
    have hhead := of_decide_eq_true h
    rw [ata_of_head hhead] at heq
    rw [heq] at hhead
    cases v <;> cases hhead

def distProgram : RawAccount := { key := env.id, owner := env.router.loader.id, data := [] }

def distProgramData : RawAccount where
  key := env.router.loader.programData env.id
  owner := env.router.loader.id
  data := programData.data

/-- The config pushes at most 80 % of an epoch; `walletA` has its account. -/
def fresh : PayoutSystem where
  router := { FeeRouter.ProgramSample.fresh with
    ledger := fun key => if key = accountA then some { mint := coin, owner := walletA, amount := 7 }
      else none }
  config := acceptedValue (handleInitialize env.router.loader env.id distProgram distProgramData
    admin env.router.id 8000) (by decide +kernel)
  epochs := fun _ => none
  claimed := fun _ => []

theorem ledger_ne {key : Pubkey} {tag : UInt8} (h : key.bytes.head? = some tag) (htag : tag ≠ 8) :
    fresh.router.ledger key = none := by
  refine if_neg fun heq => htag ?_
  rw [heq] at h
  exact (Option.some.inj h).symm

theorem fresh_fresh : fresh.Fresh env where
  router := {
    config := FeeRouter.ProgramSample.fresh_fresh.config
    pools := fun _ => rfl
    vaults := fun v _ _ => by
      cases v <;> exact ledger_ne rfl (by decide)
    recv := fun v _ a ha => by
      have hnone : fresh.router.ledger (env.router.address v) = none := by
        cases v <;> exact ledger_ne rfl (by decide)
      cases hnone.symm.trans ha }
  config := ⟨distProgram, distProgramData, admin, env.router.id, 8000,
    eq_ok_acceptedValue (by decide +kernel)⟩
  epochs := fun _ => rfl
  claimed := fun _ => rfl
  owned := fun id mint _ a ha => by
    have hvault : env.vault id mint = vaultKey := Equiv.swap_apply_left ..
    rw [hvault] at ha
    cases ha.symm.trans (ledger_ne rfl (by decide : (21 : UInt8) ≠ 8))

/-! The router's part: the creator registers the pool, and somebody claims its fees. -/

def registered : RouterProgram × FeeRouter.PoolRegistered :=
  acceptedValue (FeeRouter.handleRegisterPool env.router fresh.router accounts 100)
    (by decide +kernel)

def listed : PayoutSystem := { fresh with router := registered.1 }

def collected : RouterProgram × FeeRouter.ClaimEvents :=
  acceptedValue (FeeRouter.handleClaim env.router listed.router .dbc claimInput)
    (by decide +kernel)

def funded : PayoutSystem := { listed with router := collected.1 }

/-- A keeper takes 500 of the holders' 501 units for the epoch. -/
def openInput : OpenEpochInput where
  now := 2000
  keeper := admin
  sourceVault := env.router.address (.holder pool)
  sourceAuthority := env.router.poolKey pool
  authoritySigns := false
  router := some { feeRouterProgram := env.router.id, executable := true
                   routerConfig := env.router.key }
  args := { pool, index := 0, startTs := 1000, endTs := 1900, totalAmount := 500
            eligibleHolders := 2, twabTotal := 77 }

def opened : PayoutSystem × EpochOpened :=
  acceptedValue (openEpoch env funded coin openInput) (by decide +kernel)

def pushInput : PushInput where
  keeper := admin
  items := [{ wallet := walletA, amount := 300 }]
  dests := [{ key := accountA, isWritable := true, owner := env.tokenProgram }]

def pushed : PayoutSystem × List Payout :=
  acceptedValue (pushPayouts env opened.1 first pushInput) (by decide +kernel)

def finalized : PayoutSystem × EpochFinalized :=
  acceptedValue (finalizeEpoch pushed.1 first admin root 200) (by decide +kernel)

def claimB : ClaimInput where
  now := 3000
  wallet := walletB
  amount := 200
  proof := []

def claimed : PayoutSystem × Payout :=
  acceptedValue (claim env finalized.1 first claimB) (by decide +kernel)

theorem registered_eq : FeeRouter.handleRegisterPool env.router fresh.router accounts 100 =
    .ok (registered.1, registered.2) := by
  rw [Prod.mk.eta]
  exact eq_ok_acceptedValue _

theorem collected_eq : FeeRouter.handleClaim env.router listed.router .dbc claimInput =
    .ok (collected.1, collected.2) := by
  rw [Prod.mk.eta]
  exact eq_ok_acceptedValue _

theorem opened_eq : openEpoch env funded coin openInput = .ok (opened.1, opened.2) := by
  rw [Prod.mk.eta]
  exact eq_ok_acceptedValue _

theorem pushed_eq : pushPayouts env opened.1 first pushInput = .ok (pushed.1, pushed.2) := by
  rw [Prod.mk.eta]
  exact eq_ok_acceptedValue _

theorem finalized_eq : finalizeEpoch pushed.1 first admin root 200 =
    .ok (finalized.1, finalized.2) := by
  rw [Prod.mk.eta]
  exact eq_ok_acceptedValue _

theorem claimed_eq : claim env finalized.1 first claimB = .ok (claimed.1, claimed.2) := by
  rw [Prod.mk.eta]
  exact eq_ok_acceptedValue _

def posted : List (Int × PayoutAct) :=
  [(500, .router (.registered accounts (accounts.listing creator 100) (some programs.pegDesk))),
    (1000, .router (.claimed claimInput base coin collected.2)),
    (2000, .opened first coin admin true 500),
    (2100, .pushed first coin admin pushInput.items pushInput.dests),
    (2200, .finalized first admin root 200)]

theorem step_registered : ProgramStep env.router fresh.router (.registered accounts
    (accounts.listing creator 100) (some fresh.router.programs.pegDesk)) registered.1 :=
  .registerPool (by decide +kernel) registered_eq

theorem step_collected :
    ProgramStep env.router listed.router (.claimed claimInput base coin collected.2)
      collected.1 := by
  obtain ⟨acc, hacc, hmints⟩ : ∃ acc, listed.router.pools claimInput.pool = some acc ∧
      (acc.baseMint, acc.quoteMint) = (base, coin) := by
    have h : (listed.router.pools claimInput.pool).map
        (fun acc => (acc.baseMint, acc.quoteMint)) = some (base, coin) := by decide +kernel
    exact Option.map_eq_some_iff.mp h
  rw [Prod.mk.injEq] at hmints
  have hclaim : ProgramStep env.router listed.router (.claimed claimInput acc.baseMint
      acc.quoteMint collected.2) collected.1 :=
    .claim hacc collected_eq
  rwa [hmints.1, hmints.2] at hclaim

theorem run_posted : PayoutRun env (fresh, 0) posted (finalized.1, 2200) := by
  have hregister : PayoutStep env fresh (500, .router (.registered accounts
      (accounts.listing creator 100) (some programs.pegDesk))) listed :=
    PayoutStep.router (s := fresh) trivial step_registered
  have hcollect : PayoutStep env listed
      (1000, .router (.claimed claimInput base coin collected.2)) funded :=
    PayoutStep.router (s := listed) trivial step_collected
  have hopen : PayoutStep env funded (2000, .opened first coin admin
      (!decide (openInput.Direct funded.router.ledger)) 500) opened.1 :=
    .openEpoch (x := openInput) rfl (by decide +kernel) nofun opened_eq
  have hrouted : (!decide (openInput.Direct funded.router.ledger)) = true := by decide +kernel
  rw [hrouted] at hopen
  have hcoin : ∀ t : PayoutSystem, ((t.epochs first).map (·.coinMint) = some coin) →
      ∃ e, t.epochs first = some e ∧ e.coinMint = coin := fun t h => Option.map_eq_some_iff.mp h
  obtain ⟨e, he, hmint⟩ := hcoin opened.1 (by decide +kernel)
  have hpush : PayoutStep env opened.1
      (2100, .pushed first e.coinMint admin pushInput.items pushInput.dests) pushed.1 :=
    .pushPayouts he pushed_eq
  rw [hmint] at hpush
  have hfinalize : PayoutStep env pushed.1 (2200, .finalized first admin root 200) finalized.1 :=
    .finalizeEpoch finalized_eq
  exact .cons (hregister.clocked (by decide)) (.cons (hcollect.clocked (by decide))
    (.cons (hopen.clocked (by decide)) (.cons (hpush.clocked (by decide))
      (.single (hfinalize.clocked (by decide))))))

def claimStep : Int × PayoutAct := (3000, .claimed first coin walletB 200)

theorem run_claimed :
    PayoutRun env (finalized.1, 2200) [claimStep] (claimed.1, 3000) := by
  obtain ⟨e, he, hmint⟩ : ∃ e, finalized.1.epochs first = some e ∧ e.coinMint = coin :=
    Option.map_eq_some_iff.mp (by decide +kernel)
  have hclaim : PayoutStep env finalized.1 (3000, .claimed first e.coinMint walletB 200)
      claimed.1 :=
    .claim (x := claimB) he (by decide +kernel) claimed_eq
  rw [hmint] at hclaim
  exact .single (hclaim.clocked (by decide))

theorem run_trace : PayoutRun env (fresh, 0) (posted ++ [claimStep]) (claimed.1, 3000) :=
  run_posted.append run_claimed

theorem coinMint_first (e : Epoch) (he : claimed.1.epochs first = some e) : e.coinMint = coin := by
  have h : (claimed.1.epochs first).map (·.coinMint) = some coin := by decide +kernel
  rw [he] at h
  exact Option.some.inj h

end PayoutSample

/-! ### Every run, epoch by epoch -/

section

variable {env : PayoutEnv} {s s₀ : PayoutSystem} {id : EpochId} {mint : Pubkey}
  {clock₀ clock : Int} {tr : List (Int × PayoutAct)}

/-- What every run of the two programs is to an epoch: a run of it alone, from before its
opening, in which each of its own instructions keeps its label. -/
theorem payouts_refine (hfresh : s₀.Fresh env) (h : PayoutRun env (s₀, clock₀) tr (s, clock))
    (hknown : env.isEpoch id mint = true)
    (hmint : ∀ e, s.epochs id = some e → e.coinMint = mint) :
    (s₀.distribution id).epoch = none ∧ ∃ r, EpochRun (env.epoch r id mint)
      (s₀.distribution id, clock₀) (tr.map (eventOf env id mint)) (s.distribution id, clock) :=
  ⟨hfresh.epochs id, h.epoch hfresh.inv hknown hmint⟩

end

open PayoutSample in
open FeeRouter.ProgramSample (coin) in
theorem payouts_refine_sample : ∃ r, EpochRun (env.epoch r first coin)
    (fresh.distribution first, 0) ((posted ++ [claimStep]).map (eventOf env first coin))
    (claimed.1.distribution first, 3000) :=
  (payouts_refine fresh_fresh run_trace (by decide +kernel) coinMint_first).2

section

variable {env : PayoutEnv} {s s₀ : PayoutSystem} {id : EpochId} {clock₀ clock : Int}
  {tr : List (Int × PayoutAct)}

/-- What holds of all epochs after the steps `tr`, which led to `s`. -/
structure EpochsSound (env : PayoutEnv) (tr : List (Int × PayoutAct)) (s : PayoutSystem)
    (clock : Int) : Prop where
  /-- What was pushed and what the tree promises fit in the total. -/
  total_le : ∀ id e, s.epochs id = some e →
    e.pushedAmount.toNat + e.merkleTotal.toNat ≤ e.totalAmount.toNat
  claimed_le : ∀ id e, s.epochs id = some e → e.claimedAmount.toNat ≤ e.merkleTotal.toNat
  /-- The vault holds what has not been paid out, unless it was swept. -/
  funded : ∀ id e, s.epochs id = some e → (∀ a ∈ tr, ¬ a.2.Sweeps id) →
    e.totalAmount.toNat ≤ s.router.ledger.amount (env.vault id e.coinMint) +
      e.pushedAmount.toNat + e.claimedAmount.toNat
  /-- After a sweep the claims are over. -/
  settled : ∀ id e, s.epochs id = some e → (∃ a ∈ tr, a.2.Sweeps id) →
    e.finalized = true ∧ satAddI64 e.endTs sweepDelaySecs < clock
  /-- No payout lacks funds, now or later. -/
  push_funded : ∀ id x, pushPayouts env s id x ≠ .error (.token .insufficientFunds)
  claim_funded : ∀ id x, clock ≤ x.now → claim env s id x ≠ .error (.token .insufficientFunds)

/-- The escrow's book of an epoch, at the end of the run the epoch sees. -/
theorem PayoutRun.book (h : PayoutRun env (s₀, clock₀) tr (s, clock)) (hfresh : s₀.Fresh env)
    {e : Epoch} (he : s.epochs id = some e) : ∃ r b₀, b₀.Valid ∧ b₀.Funded ∧
      Run Escrow.ClockedStep (b₀, clock₀) (tr.map fun a => (eventOf env id e.coinMint a).entry)
        ((s.distribution id).book (env.epoch r id e.coinMint), clock) := by
  have hknown : env.isEpoch id e.coinMint = true := (h.inv hfresh.inv).known id e he
  obtain ⟨r, hrun⟩ := h.epoch hfresh.inv hknown fun e' he' => by
    cases he.symm.trans he'
    rfl
  obtain ⟨hvalid, hfunded⟩ := book_fresh (env.epoch r id e.coinMint)
    (s := s₀.distribution id) (hfresh.epochs id)
  have hbook := hrun.book
  rw [List.map_map] at hbook
  exact ⟨r, _, hvalid, hfunded, hbook⟩

theorem PayoutRun.valid (h : PayoutRun env (s₀, clock₀) tr (s, clock)) (hfresh : s₀.Fresh env)
    {e : Epoch} (he : s.epochs id = some e) :
    e.pushedAmount.toNat + e.merkleTotal.toNat ≤ e.totalAmount.toNat ∧
      e.claimedAmount.toNat ≤ e.merkleTotal.toNat := by
  obtain ⟨r, b₀, hvalid₀, -, hrun⟩ := h.book hfresh he
  have hvalid := Escrow.valid_of_run hrun hvalid₀
  have hbook : (s.distribution id).book (env.epoch r id e.coinMint) = _ := book_of_some he
  have htotal := hvalid.total_le
  have hclaimed := hvalid.claimed_le
  rw [hbook] at htotal hclaimed
  exact ⟨htotal, hclaimed⟩

/-- No payout of an epoch lacks funds: its book is funded, or settled. -/
theorem PayoutRun.payable (h : PayoutRun env (s₀, clock₀) tr (s, clock)) (hfresh : s₀.Fresh env)
    {e : Epoch} (he : s.epochs id = some e) : ∃ r,
      ((s.distribution id).book (env.epoch r id e.coinMint)).Valid ∧
      (((s.distribution id).book (env.epoch r id e.coinMint)).Funded ∨
        ((s.distribution id).book (env.epoch r id e.coinMint)).Settled clock) := by
  obtain ⟨r, b₀, hvalid₀, hfunded₀, hrun⟩ := h.book hfresh he
  exact ⟨r, Escrow.valid_of_run hrun hvalid₀, Escrow.funded_or_settled_of_run hrun hfunded₀⟩

theorem loadCoinMint_bind_eq_error {α : Type} {f : Pubkey → DistResult α} {t : TokenError}
    (h : (loadCoinMint s id >>= f) = .error (.token t)) :
    ∃ e, s.epochs id = some e ∧ f e.coinMint = .error (.token t) := by
  have hne : loadCoinMint s id ≠ .error (.token t) := by
    intro h
    obtain ⟨e, -, h⟩ := (bind_eq_error_of_ne liftAnchor_ne_token).mp h
    cases h
  obtain ⟨mint, hmint, h⟩ := (bind_eq_error_of_ne hne).mp h
  obtain ⟨e, he, hmint⟩ := bind_eq_ok.mp hmint
  cases hmint
  exact ⟨e, loadEpoch_eq_ok.mp he, h⟩

theorem onEpoch_eq_error {α : Type} {h : DistResult (Distribution × α)} {t : TokenError}
    (hx : onEpoch s id h = .error (.token t)) : h = .error (.token t) := by
  unfold onEpoch at hx
  rcases bind_eq_error.mp hx with hx | ⟨⟨d, ev⟩, -, hx⟩
  · exact hx
  · cases hx

/-- Whatever happens on the two programs and around them, in any order: the epochs' counters add
up, their vaults hold what they owe until they are swept, which is after the claims, and no payout
of any of them lacks funds. -/
theorem payouts_sound (hfresh : s₀.Fresh env) (h : PayoutRun env (s₀, clock₀) tr (s, clock)) :
    EpochsSound env tr s clock := by
  constructor
  · exact fun id e he => (h.valid hfresh he).1
  · exact fun id e he => (h.valid hfresh he).2
  · intro id e he hfree
    obtain ⟨r, b₀, -, hfunded₀, hrun⟩ := h.book hfresh he
    have hfunded := Escrow.funded_of_run hrun hfunded₀ fun x hx => by
      obtain ⟨a, ha, rfl⟩ := List.mem_map.mp hx
      exact PayoutAct.sweepFree_entry (hfree a ha)
    have hbook : (s.distribution id).book (env.epoch r id e.coinMint) = _ := book_of_some he
    unfold Escrow.Book.Funded at hfunded
    rwa [hbook] at hfunded
  · intro id e he hswept
    obtain ⟨r, b₀, -, -, hrun⟩ := h.book hfresh he
    obtain ⟨a, ha, hact⟩ := hswept
    have hsettled := Escrow.settled_of_run hrun
      ⟨_, List.mem_map_of_mem ha, PayoutAct.sweeps_entry hact⟩
    have hbook : (s.distribution id).book (env.epoch r id e.coinMint) = _ := book_of_some he
    have hfinal := hsettled.finalized
    have hlate := hsettled.late
    rw [hbook] at hfinal hlate
    exact ⟨hfinal, hlate⟩
  · intro id x hx
    obtain ⟨e, he, hx⟩ := loadCoinMint_bind_eq_error hx
    obtain ⟨r, hvalid, hfunds⟩ := h.payable hfresh he
    refine push_ne_insufficientFunds (x := x) hfunds hvalid ?_
    rw [handlePushPayouts_congr _ s.router]
    exact onEpoch_eq_error hx
  · intro id x hnow hx
    obtain ⟨e, he, hx⟩ := loadCoinMint_bind_eq_error hx
    obtain ⟨r, hvalid, hfunds⟩ := h.payable hfresh he
    exact claim_ne_insufficientFunds (x := x) hfunds hvalid hnow (onEpoch_eq_error hx)

end

open PayoutSample in
/-- After a push and a claim. -/
theorem payouts_sound_sample : EpochsSound env (posted ++ [claimStep]) claimed.1 3000 :=
  payouts_sound fresh_fresh run_trace

end IceMarkets.Payouts
