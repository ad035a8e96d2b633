import IceMarkets.Payouts.Run

/-!
# IceMarkets.Payouts.Steps

What a step of the two programs does: what it posts to the guarded accounts, whose authorities
stay their owners (`PayoutStep.posted`), and what it leaves of an epoch's seeds and total
(`PayoutStep.epochKept`).
-/

namespace IceMarkets.Payouts

open Lts Books Distributor Ledger
open FeeRouter (RouterProgram ProgramAct ProgramStep Vault)

variable {env : PayoutEnv} {s s' : PayoutSystem}

/-! ### Invariant -/

/-- The guarded accounts are their authorities', and the epochs are those there are. -/
structure Inv (env : PayoutEnv) (s : PayoutSystem) : Prop where
  splits : s.router.config.Splits
  owned : ∀ g : Guarded, g.Known env →
    s.router.ledger.OwnedBy (g.address env) (g.authority env)
  known : ∀ id e, s.epochs id = some e → env.isEpoch id e.coinMint = true

/-- What a withdrawal sends to an address. -/
def sent (key : Pubkey) : ProgramAct → Nat
  | .withdrawn _ _ _ destination amount => paid destination amount.toNat key
  | _ => 0

/-- What an instruction of the router leaves of an account that is none of its own. -/
structure Spares (L : Ledger) (key : Pubkey) (n : Nat) (L' : Ledger) : Prop where
  amount : L'.amount key = L.amount key + n
  holds : ∀ mint owner, L.Holds key mint owner → L'.Holds key mint owner
  owned : ∀ owner, L.OwnedBy key owner → L'.OwnedBy key owner

theorem Spares.of_eq {L L' : Ledger} {key : Pubkey} (h : L' key = L key) : Spares L key 0 L' where
  amount := by
    unfold Ledger.amount
    rw [h]
    rfl
  holds mint owner hL := by
    obtain ⟨a, ha, hmint, howner⟩ := hL
    exact ⟨a, by rw [h, ha], hmint, howner⟩
  owned owner hL a ha := hL a (by rw [← h, ha])

theorem router_spares {r r' : RouterProgram} {act : ProgramAct} {key : Pubkey}
    (h : ProgramStep env.router r act r') (hc : r.config.Splits) (hact : Instruction env act)
    (hkey : ∀ v, Vault.Known env.router v → key ≠ env.router.address v) :
    Spares r.ledger key (sent key act) r'.ledger := by
  cases h.done hc with
  | claimed h => exact .of_eq (h.other key hkey)
  | withdrawn _ h =>
      have hamount := h.amount key
      rw [if_neg (hkey _ h.known), Nat.add_zero] at hamount
      exact ⟨hamount, fun mint owner hL => h.holds key mint owner hL,
        fun owner => h.owned key owner⟩
  | registered _ _ h => exact .of_eq (h.creates.other key hkey)
  | migrated h =>
      rw [h.state]
      exact .of_eq rfl
  | configured _ => exact .of_eq rfl
  | external _ => exact hact.elim

theorem router_owned {r r' : RouterProgram} {act : ProgramAct} {v : Vault}
    (h : ProgramStep env.router r act r') (hc : r.config.Splits) (hact : Instruction env act)
    (hv : v.Known env.router)
    (howned : r.ledger.OwnedBy (env.router.address v) (v.authority env.router)) :
    r'.ledger.OwnedBy (env.router.address v) (v.authority env.router) := by
  cases h.done hc with
  | claimed h => exact h.owned _ _ howned
  | withdrawn _ h => exact h.owned _ _ howned
  | registered _ _ h => exact h.creates.owned v hv howned
  | migrated h =>
      rw [h.state]
      exact howned
  | configured _ => exact howned
  | external _ => exact hact.elim

/-! ### Openings -/

section Opening

variable {id : EpochId} {mint : Pubkey} {x : OpenEpochInput} {d : Distribution}

/-- Creating the vault of an epoch leaves a signer's account whose it is. -/
theorem direct_init {L L' : Ledger} (hsigns : x.authoritySigns = true →
    env.isSigner x.sourceAuthority = true)
    (h : L.initIfNeeded (env.vault id mint) mint (env.epochKey id) = .ok L') :
    x.Direct L' ↔ x.Direct L := by
  obtain ⟨⟨a, ha, -, howner⟩, -, hother⟩ := Ledger.initIfNeeded_ok h
  unfold OpenEpochInput.Direct
  refine and_congr_right fun hs => ?_
  by_cases hkey : x.sourceVault = env.vault id mint
  · -- the vault is the epoch's, whose address does not sign
    have hne := env.signer_epoch x.sourceAuthority id.pool id.index (hsigns hs)
    have hnew : (L' x.sourceVault).map (·.owner) ≠ some x.sourceAuthority := by
      rw [hkey, ha, Option.map_some, howner]
      exact fun heq => hne (Option.some.inj heq).symm
    refine iff_of_false hnew fun hold => hnew ?_
    obtain ⟨b, hb, hbo⟩ := Option.map_eq_some_iff.mp hold
    obtain ⟨c, hc, -, hco⟩ := Ledger.Holds.initIfNeeded ⟨b, hb, rfl, rfl⟩ h
    rw [hc, Option.map_some, hco, hbo]
  · rw [hother _ hkey]

/-- What an opening moves: the total, from a signer's account or from the pool's holder vault,
to the epoch's vault, which it may create. -/
theorem opened_moved (hinv : Inv env s) (hknown : env.isEpoch id mint = true)
    (hsigns : x.authoritySigns = true → env.isSigner x.sourceAuthority = true)
    (h : OpenMoves (env.epoch s.router id mint) (s.distribution id) x d) :
    ∃ src, s.router.ledger.Moved (paid src x.args.totalAmount.toNat)
      (paid (env.vault id mint) x.args.totalAmount.toNat) [(env.vault id mint, env.epochKey id)]
      d.ledger ∧ (x.Direct s.router.ledger → ∀ g : Guarded, g.Known env → g.address env ≠ src) ∧
      (¬ x.Direct s.router.ledger → Vault.Known env.router (.holder id.pool) ∧
        src = env.router.address (.holder id.pool)) := by
  obtain ⟨L, hL, hfunded⟩ := h.funded
  have hinit := moved_initIfNeeded hL
  have hsame : x.Direct L ↔ x.Direct s.router.ledger := direct_init hsigns hL
  rw [← hsame]
  cases hfunded with
  | direct hdirect htr =>
      refine ⟨x.sourceVault, (hinit.trans (moved_transfer htr)).congr (fun _ => Nat.zero_add _)
        fun _ => Nat.zero_add _, ?_, fun hne => absurd hdirect hne⟩
      intro _ g hg heq
      -- the owner of a guarded account does not sign
      obtain ⟨a, ha, howner⟩ := transfer_owner htr
      have howned : L.OwnedBy (g.address env) (g.authority env) := by
        refine hinit.owned _ _ (fun o ho => ?_) (hinv.owned g hg)
        have hmem := List.mem_singleton.mp ho
        rw [Prod.mk.injEq] at hmem
        have hg' : g = .epoch id mint := Guarded.address_injective hg hknown hmem.1
        rw [hmem.2, hg']
        rfl
      rw [heq] at howned
      exact Guarded.authority_ne (hsigns hdirect.1) g (howner.symm.trans (howned a ha))
  | router hdirect hw =>
      have hdone := (withdrawForEpoch_ok hw).2
      refine ⟨env.router.address (.holder id.pool), ?_, fun hd => absurd hd hdirect,
        fun _ => ⟨hdone.known, rfl⟩⟩
      have hmoved : L.Moved (paid (env.router.address (.holder id.pool)) x.args.totalAmount.toNat)
          (paid (env.vault id mint) x.args.totalAmount.toNat) [] d.ledger :=
        ⟨hdone.amount, hdone.holds, fun key owner _ => hdone.owned key owner⟩
      exact (hinit.trans hmoved).congr (fun _ => Nat.zero_add _) fun _ => Nat.zero_add _

end Opening

/-! ### What a step posts -/

namespace PayoutAct

/-- Put into a vault of the router by a claim of fees. -/
def earned : PayoutAct → Guarded → Nat
  | router act, .router v => act.earned v
  | _, _ => 0

/-- Sent to a guarded account. -/
def given (env : PayoutEnv) : PayoutAct → Guarded → Nat
  | router act, g => sent (g.address env) act
  | opened id mint _ _ total, g => paid (env.vault id mint) total.toNat (g.address env)
  | pushed _ _ _ items dests, g => sentTo (items.zip dests) (g.address env)
  | claimed _ mint wallet amount, g => paid (env.ata wallet mint) amount.toNat (g.address env)
  | swept _ _ _ treasury amount, g => paid treasury amount.toNat (g.address env)
  | external gift, g => gift g
  | _, _ => 0

/-- Taken from a guarded account. -/
def taken : PayoutAct → Guarded → Nat
  | router act, .router v => act.taken v
  | opened id _ _ routed total, g =>
      if routed = true ∧ g = .router (.holder id.pool) then total.toNat else 0
  | pushed id mint _ items _, g => if g = .epoch id mint then itemTotal items else 0
  | claimed id mint _ amount, g => if g = .epoch id mint then amount.toNat else 0
  | swept id mint _ _ amount, g => if g = .epoch id mint then amount.toNat else 0
  | _, _ => 0

end PayoutAct

/-- A step's effect on the guarded accounts. -/
structure Posted (env : PayoutEnv) (s : PayoutSystem) (act : PayoutAct) (s' : PayoutSystem) :
    Prop where
  amount : ∀ g : Guarded, g.Known env →
    s'.router.ledger.amount (g.address env) + act.taken g =
      s.router.ledger.amount (g.address env) + (act.earned g + act.given env g)
  owned : ∀ g : Guarded, g.Known env → s'.router.ledger.OwnedBy (g.address env) (g.authority env)
  holds : ∀ id mint, env.isEpoch id mint = true → ∀ m owner,
    s.router.ledger.Holds (env.vault id mint) m owner →
      s'.router.ledger.Holds (env.vault id mint) m owner

section Steps

variable {a : Int × PayoutAct}

/-- What was moved from a guarded account. -/
theorem posted_of_moved {act : PayoutAct} {out into : Pubkey → Nat}
    {made : List (Pubkey × Pubkey)} (hinv : Inv env s)
    (h : s.router.ledger.Moved out into made s'.router.ledger)
    (hout : ∀ g : Guarded, g.Known env → out (g.address env) = act.taken g)
    (hinto : ∀ g : Guarded, g.Known env →
      into (g.address env) = act.earned g + act.given env g)
    (hmade : ∀ g : Guarded, g.Known env → ∀ o, (g.address env, o) ∈ made → o = g.authority env) :
    Posted env s act s' where
  amount g hg := by
    rw [← hout g hg, ← hinto g hg]
    exact h.amount _
  owned g hg := h.owned _ _ (hmade g hg) (hinv.owned g hg)
  holds _ _ _ m owner hL := h.holds _ m owner hL

theorem PayoutStep.posted (hstep : PayoutStep env s a s') (hinv : Inv env s) :
    Posted env s a.2 s' := by
  cases hstep.done with
  | @router _ act r hact h =>
      constructor
      · intro g hg
        cases g with
        | router v =>
            have hposts : r.ledger.amount (env.router.address v) + act.taken v =
                s.router.ledger.amount (env.router.address v) +
                  (act.earned v + act.given env.router v) :=
              ProgramStep.posts hg s.router act r hinv.splits h
            have hgiven : act.given env.router v = sent (env.router.address v) act := by
              cases act with
              | external _ => exact hact.elim
              | claimed _ _ _ _ | withdrawn _ _ _ _ _ | registered _ _ _ | migrated _
              | configured _ => rfl
            rw [hgiven] at hposts
            exact hposts
        | epoch id mint =>
            have hspares := router_spares h hinv.splits hact fun v hv =>
              env.vault_ne id mint v hg hv
            change r.ledger.amount (env.vault id mint) + 0 =
              s.router.ledger.amount (env.vault id mint) + (0 + sent (env.vault id mint) act)
            rw [Nat.zero_add]
            exact hspares.amount
      · intro g hg
        cases g with
        | router v => exact router_owned h hinv.splits hact hg (hinv.owned _ hg)
        | epoch id mint =>
            exact (router_spares h hinv.splits hact fun v hv =>
              env.vault_ne id mint v hg hv).owned _ (hinv.owned _ hg)
      · intro id mint hknown m owner hL
        exact (router_spares h hinv.splits hact fun v hv =>
          env.vault_ne id mint v hknown hv).holds m owner hL
  | @opened id mint x ev d hid hknown hsigns h =>
      obtain ⟨src, hmoved, hdirect, hrouted⟩ :=
        opened_moved hinv hknown hsigns (handleOpenEpoch_moves h)
      refine posted_of_moved hinv hmoved ?_ (fun g hg => (Nat.zero_add _).symm) ?_
      · intro g hg
        by_cases hd : x.Direct s.router.ledger
        · simp [PayoutAct.taken, hd, paid, hdirect hd g hg]
        · obtain ⟨hholder, rfl⟩ := hrouted hd
          have hpaid := Guarded.paid_address hg (.router (.holder id.pool)) hholder
            x.args.totalAmount.toNat
          exact hpaid.trans (by simp [PayoutAct.taken, hd])
      · intro g hg o ho
        have hmem := List.mem_singleton.mp ho
        rw [Prod.mk.injEq] at hmem
        have hg' : g = .epoch id mint := Guarded.address_injective hg hknown hmem.1
        rw [hmem.2, hg']
        rfl
  | @pushed _ id e x evs d he h =>
      have hmoves := handlePushPayouts_moves h
      refine posted_of_moved hinv hmoves.moved ?_ (fun g hg => (Nat.zero_add _).symm) nofun
      exact fun g hg => Guarded.paid_address hg (.epoch id e.coinMint) (hinv.known id e he) _
  | @finalized _ id keeper merkleRoot merkleTotal ev d h =>
      obtain ⟨e, heff⟩ := handleFinalizeEpoch_ok h
      rw [heff.state]
      exact posted_of_moved hinv (Moved.refl _) (fun _ _ => rfl) (fun _ _ => rfl) nofun
  | @claimed id e x ev d he hsigner h =>
      obtain ⟨-, hmoved⟩ := handleClaim_moves h
      refine posted_of_moved hinv hmoved ?_ (fun g hg => (Nat.zero_add _).symm) ?_
      · exact fun g hg =>
          Guarded.paid_address hg (.epoch id e.coinMint) (hinv.known id e he) _
      · intro g hg o ho
        have hmem := List.mem_singleton.mp ho
        rw [Prod.mk.injEq] at hmem
        exact absurd hmem.1 (Guarded.ata_ne hsigner e.coinMint hg)
  | @swept id e x ev d he h =>
      obtain ⟨-, -, hmoved⟩ := handleSweepUnclaimed_moves h
      refine posted_of_moved hinv hmoved ?_ (fun g hg => (Nat.zero_add _).symm) nofun
      exact fun g hg => Guarded.paid_address hg (.epoch id e.coinMint) (hinv.known id e he) _
  | configured _ =>
      exact posted_of_moved hinv (Moved.refl _) (fun _ _ => rfl) (fun _ _ => rfl) nofun
  | external h =>
      constructor
      · intro g hg
        have hamount := h.amount g hg
        simpa [PayoutAct.taken, PayoutAct.earned, PayoutAct.given] using hamount
      · exact fun g hg => h.owned g hg (hinv.owned g hg)
      · exact fun id mint hknown m owner hL => h.holds (.epoch id mint) hknown m owner hL

end Steps

/-! ### The epochs -/

section Epochs

variable {a : Int × PayoutAct} {id : EpochId}

/-- What a step opens an epoch with. -/
def PayoutAct.opens (id : EpochId) : PayoutAct → Nat
  | opened id' _ _ _ total => if id' = id then total.toNat else 0
  | _ => 0

/-- What a step leaves of the seeds of an epoch: an epoch stays, with its coin and total, and a
new one was opened. -/
structure EpochKept (s : PayoutSystem) (act : PayoutAct) (s' : PayoutSystem) (id : EpochId) :
    Prop where
  kept : ∀ e, s.epochs id = some e → act.opens id = 0 ∧
    ∃ e', s'.epochs id = some e' ∧ e'.coinMint = e.coinMint ∧ e'.totalAmount = e.totalAmount
  fresh : ∀ e', s.epochs id = none → s'.epochs id = some e' →
    ∃ keeper routed, act = .opened id e'.coinMint keeper routed e'.totalAmount
  closed : s'.epochs id = none → act.opens id = 0

theorem EpochKept.of_eq {act : PayoutAct} (h : s'.epochs id = s.epochs id)
    (hact : act.opens id = 0) : EpochKept s act s' id where
  kept e he := ⟨hact, e, by rw [h, he], rfl, rfl⟩
  fresh e' hnone he' := by
    rw [h, hnone] at he'
    cases he'
  closed _ := hact

theorem store_epochs_of_ne {id' : EpochId} {d : Distribution} (h : id ≠ id') :
    (s.store id' d).epochs id = s.epochs id := Function.update_of_ne h ..

theorem store_epochs (id : EpochId) (d : Distribution) : (s.store id d).epochs id = d.epoch :=
  Function.update_self ..

/-- An instruction on an epoch that is there. -/
theorem EpochKept.of_store {act : PayoutAct} {id' : EpochId} {e e' : Epoch} {d : Distribution}
    (he : s.epochs id' = some e) (he' : d.epoch = some e') (hmint : e'.coinMint = e.coinMint)
    (htotal : e'.totalAmount = e.totalAmount) (hact : act.opens id = 0) :
    EpochKept s act (s.store id' d) id := by
  by_cases hid : id = id'
  · subst hid
    constructor
    · intro e₀ he₀
      cases he.symm.trans he₀
      exact ⟨hact, e', by rw [store_epochs, he'], hmint, htotal⟩
    · intro _ hnone
      rw [hnone] at he
      cases he
    · exact fun _ => hact
  · exact .of_eq (store_epochs_of_ne hid) hact

theorem PayoutStep.epochKept (hstep : PayoutStep env s a s') (id : EpochId) :
    EpochKept s a.2 s' id := by
  cases hstep.done with
  | router _ _ => exact .of_eq rfl rfl
  | @opened id' mint x ev d hid hknown hsigns h =>
      have heff := handleOpenEpoch_ok h
      obtain ⟨e, he, -, htotal, -⟩ := heff.epoch
      by_cases hne : id = id'
      · subst hne
        constructor
        · intro e₀ he₀
          cases he₀.symm.trans heff.fresh
        · intro e' _ he'
          rw [store_epochs, he, Option.some.injEq] at he'
          subst he'
          have hmint : e.coinMint = mint := (handleOpenEpoch_moves h).coinMint e he
          rw [htotal, hmint]
          exact ⟨_, _, rfl⟩
        · intro hnone
          rw [store_epochs, he] at hnone
          cases hnone
      · exact .of_eq (store_epochs_of_ne hne) (if_neg (Ne.symm hne))
  | @pushed _ id' e x evs d he h =>
      obtain ⟨e₀, heff⟩ := handlePushPayouts_ok h
      obtain ⟨pushed, -, he'⟩ := heff.epoch'
      exact .of_store heff.epoch he' rfl rfl rfl
  | @finalized _ id' keeper merkleRoot merkleTotal ev d h =>
      obtain ⟨e, heff⟩ := handleFinalizeEpoch_ok h
      exact .of_store heff.epoch (congrArg Distribution.epoch heff.state) rfl rfl rfl
  | @claimed id' e x ev d he hsigner h =>
      obtain ⟨e₀, heff⟩ := handleClaim_ok h
      obtain ⟨newClaimed, -, he'⟩ := heff.epoch'
      exact .of_store heff.epoch he' rfl rfl rfl
  | @swept id' e x ev d he h =>
      obtain ⟨e₀, heff⟩ := handleSweepUnclaimed_ok h
      exact .of_store heff.epoch heff.epoch' rfl rfl rfl
  | configured _ => exact .of_eq rfl rfl
  | external _ => exact .of_eq rfl rfl

/-- A known opening. -/
theorem PayoutStep.known (hstep : PayoutStep env s a s') {mint keeper : Pubkey} {routed : Bool}
    {total : UInt64} (ha : a.2 = .opened id mint keeper routed total) :
    env.isEpoch id mint = true := by
  cases hstep <;> cases ha
  assumption

end Epochs

theorem PayoutStep.inv {a : Int × PayoutAct} (hstep : PayoutStep env s a s')
    (hinv : Inv env s) : Inv env s' where
  splits := by
    cases hstep.done with
    | router _ h => exact h.splits hinv.splits
    | opened _ _ _ _ | pushed _ _ | finalized _ | claimed _ _ _ | swept _ _ | configured _
    | external _ => exact hinv.splits
  owned := (hstep.posted hinv).owned
  known id e' he' := by
    cases he : s.epochs id with
    | none =>
        obtain ⟨keeper, routed, ha⟩ := (hstep.epochKept id).fresh e' he he'
        exact hstep.known ha
    | some e =>
        obtain ⟨-, e'', he'', hmint, -⟩ := (hstep.epochKept id).kept e he
        cases he'.symm.trans he''
        rw [hmint]
        exact hinv.known id e he

theorem PayoutRun.inv {p p' : PayoutSystem × Int} {tr : List (Int × PayoutAct)}
    (h : PayoutRun env p tr p') (hinv : Inv env p.1) : Inv env p'.1 :=
  h.invariant (I := fun p => Inv env p.1) (fun _ _ _ hstep hs => hstep.step.inv hs) hinv

end IceMarkets.Payouts
