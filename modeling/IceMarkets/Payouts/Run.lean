import IceMarkets.Payouts.System

/-!
# IceMarkets.Payouts.Run

Runs of both programs: every instruction of the router and of the distributor on any epoch, by
any signers and with any arguments, among other transactions on the ledger. `PayoutStep.done`
inverts a step once. The accounts to keep books of are those whose authorities are derived
addresses of the programs.
-/

namespace IceMarkets.Payouts

open Lts Books Distributor Ledger
open FeeRouter (RouterProgram ProgramAct ProgramStep Vault)

variable {env : PayoutEnv} {s s' : PayoutSystem}

/-! ### Guarded accounts -/

/-- The token accounts whose authorities are derived addresses of the two programs. -/
inductive Guarded
  | router (v : Vault)
  | epoch (id : EpochId) (mint : Pubkey)
  deriving DecidableEq, Repr

namespace Guarded

def address (env : PayoutEnv) : Guarded → Pubkey
  | router v => env.router.address v
  | epoch id mint => env.vault id mint

def authority (env : PayoutEnv) : Guarded → Pubkey
  | router v => v.authority env.router
  | epoch id _ => env.epochKey id

/-- Of the mints, pools and epochs there are. -/
def Known (env : PayoutEnv) : Guarded → Prop
  | router v => v.Known env.router
  | epoch id mint => env.isEpoch id mint = true

variable {g g' : Guarded}

theorem address_injective (hg : g.Known env) (hg' : g'.Known env)
    (h : g.address env = g'.address env) : g = g' := by
  cases g with
  | router v =>
      cases g' with
      | router v' => rw [env.router.address_injective v v' hg hg' h]
      | epoch id mint => exact absurd h.symm (env.vault_ne id mint v hg' hg)
  | epoch id mint =>
      cases g' with
      | router v' => exact absurd h (env.vault_ne id mint v' hg hg')
      | epoch id' mint' =>
          obtain ⟨rfl, rfl⟩ := env.vault_injective id id' mint mint' hg hg' h
          rfl

theorem paid_address (hg : g.Known env) (g' : Guarded) (hg' : g'.Known env) (n : Nat) :
    paid (g'.address env) n (g.address env) = if g = g' then n else 0 := by
  by_cases h : g = g'
  · rw [if_pos h, h]
    exact if_pos rfl
  · rw [if_neg h]
    exact if_neg fun heq => h (address_injective hg hg' heq)

theorem authority_ne {key : Pubkey} (hkey : env.isSigner key = true) (g : Guarded) :
    key ≠ g.authority env := by
  cases g with
  | router v => exact env.signer_router key v hkey
  | epoch id mint => exact env.signer_epoch key id.pool id.index hkey

/-- The associated account of a signer is not guarded. -/
theorem ata_ne {wallet : Pubkey} (hwallet : env.isSigner wallet = true) (mint : Pubkey)
    (hg : g.Known env) : g.address env ≠ env.ata wallet mint := by
  cases g with
  | router v => exact (env.ata_router wallet mint v hwallet hg).symm
  | epoch id m => exact (env.ata_vault wallet mint id m hwallet hg).symm

end Guarded

/-! ### Runs -/

/-- What a step did. -/
inductive PayoutAct
  | router (act : ProgramAct)
  /-- `routed` where the tokens came out of the pool's holder vault. -/
  | opened (id : EpochId) (mint keeper : Pubkey) (routed : Bool) (total : UInt64)
  | pushed (id : EpochId) (mint keeper : Pubkey) (items : List PayoutItem) (dests : List DestInfo)
  | finalized (id : EpochId) (keeper : Pubkey) (merkleRoot : Bytes32) (merkleTotal : UInt64)
  | claimed (id : EpochId) (mint wallet : Pubkey) (amount : UInt64)
  | swept (id : EpochId) (mint admin treasury : Pubkey) (amount : UInt64)
  | configured (admin : Pubkey) (config : DistConfig)
  | external (gift : Guarded → Nat)

/-- What other transactions may do to the ledger. -/
structure Outside (env : PayoutEnv) (L : Ledger) (gift : Guarded → Nat) (L' : Ledger) : Prop where
  amount : ∀ g : Guarded, g.Known env →
    L'.amount (g.address env) = L.amount (g.address env) + gift g
  owned : ∀ g : Guarded, g.Known env → L.OwnedBy (g.address env) (g.authority env) →
    L'.OwnedBy (g.address env) (g.authority env)
  holds : ∀ g : Guarded, g.Known env → ∀ mint owner, L.Holds (g.address env) mint owner →
    L'.Holds (g.address env) mint owner

/-- The instructions of the router, and who signs them: the distributor's PDA signs only the
calls the distributor makes. -/
def Instruction (env : PayoutEnv) : ProgramAct → Prop
  | .withdrawn _ signer _ _ _ => env.isSigner signer = true
  | .external _ => False
  | _ => True

/-- An accepted instruction, or another transaction, at its time. -/
inductive PayoutStep (env : PayoutEnv) (s : PayoutSystem) :
    Int × PayoutAct → PayoutSystem → Prop
  | router {now : Int} {act : ProgramAct} {r : RouterProgram} (hact : Instruction env act)
      (h : ProgramStep env.router s.router act r) :
      PayoutStep env s (now, .router act) { s with router := r }
  | openEpoch {id : EpochId} {mint : Pubkey} {x : OpenEpochInput} {ev : EpochOpened}
      {s' : PayoutSystem} (hid : id = { pool := x.args.pool, index := x.args.index })
      (hknown : env.isEpoch id mint = true)
      (hsigns : x.authoritySigns = true → env.isSigner x.sourceAuthority = true)
      (h : openEpoch env s mint x = .ok (s', ev)) :
      PayoutStep env s (x.now, .opened id mint x.keeper (!decide (x.Direct s.router.ledger))
        x.args.totalAmount) s'
  | pushPayouts {now : Int} {id : EpochId} {e : Epoch} {x : PushInput} {evs : List Payout}
      {s' : PayoutSystem} (he : s.epochs id = some e) (h : pushPayouts env s id x = .ok (s', evs)) :
      PayoutStep env s (now, .pushed id e.coinMint x.keeper x.items x.dests) s'
  | finalizeEpoch {now : Int} {id : EpochId} {keeper : Pubkey} {merkleRoot : Bytes32}
      {merkleTotal : UInt64} {ev : EpochFinalized} {s' : PayoutSystem}
      (h : finalizeEpoch s id keeper merkleRoot merkleTotal = .ok (s', ev)) :
      PayoutStep env s (now, .finalized id keeper merkleRoot merkleTotal) s'
  | claim {id : EpochId} {e : Epoch} {x : ClaimInput} {ev : Payout} {s' : PayoutSystem}
      (he : s.epochs id = some e) (hsigner : env.isSigner x.wallet = true)
      (h : claim env s id x = .ok (s', ev)) :
      PayoutStep env s (x.now, .claimed id e.coinMint x.wallet x.amount) s'
  | sweepUnclaimed {id : EpochId} {e : Epoch} {x : SweepInput} {ev : EpochSwept}
      {s' : PayoutSystem} (he : s.epochs id = some e)
      (h : sweepUnclaimed env s id x = .ok (s', ev)) :
      PayoutStep env s (x.now, .swept id e.coinMint x.admin x.treasury ev.amount) s'
  | setKeepers {now : Int} {admin : Pubkey} {keepers : List Pubkey} {s' : PayoutSystem}
      (h : configureWith s (handleSetKeepers s.config admin keepers) = .ok s') :
      PayoutStep env s (now, .configured admin s'.config) s'
  | setParams {now : Int} {admin : Pubkey} {args : SetParamsArgs} {s' : PayoutSystem}
      (h : configureWith s (handleSetParams s.config admin args) = .ok s') :
      PayoutStep env s (now, .configured admin s'.config) s'
  | elsewhere {now : Int} {gift : Guarded → Nat} {L : Ledger}
      (h : Outside env s.router.ledger gift L) :
      PayoutStep env s (now, .external gift) { s with router := { s.router with ledger := L } }

/-- A step beside the validator clock. -/
abbrev PayoutClocked (env : PayoutEnv) :
    PayoutSystem × Int → Int × PayoutAct → PayoutSystem × Int → Prop :=
  Clocked (PayoutStep env) Prod.fst

abbrev PayoutRun (env : PayoutEnv) :
    PayoutSystem × Int → List (Int × PayoutAct) → PayoutSystem × Int → Prop :=
  Run (PayoutClocked env)

theorem PayoutStep.clocked {a : Int × PayoutAct} {clock : Int} (h : PayoutStep env s a s')
    (hle : clock ≤ a.1) : PayoutClocked env (s, clock) a (s', a.1) :=
  ⟨h, hle, rfl⟩

/-- What a step of each label did: the handler that accepted on the accounts of its epoch. -/
inductive PayoutDone (env : PayoutEnv) (s : PayoutSystem) :
    Int × PayoutAct → PayoutSystem → Prop
  | router {now : Int} {act : ProgramAct} {r : RouterProgram} (hact : Instruction env act)
      (h : ProgramStep env.router s.router act r) :
      PayoutDone env s (now, .router act) { s with router := r }
  | opened {id : EpochId} {mint : Pubkey} {x : OpenEpochInput} {ev : EpochOpened}
      {d : Distribution} (hid : id = { pool := x.args.pool, index := x.args.index })
      (hknown : env.isEpoch id mint = true)
      (hsigns : x.authoritySigns = true → env.isSigner x.sourceAuthority = true)
      (h : handleOpenEpoch (env.epoch s.router id mint) (s.distribution id) x = .ok (d, ev)) :
      PayoutDone env s (x.now, .opened id mint x.keeper (!decide (x.Direct s.router.ledger))
        x.args.totalAmount) (s.store id d)
  | pushed {now : Int} {id : EpochId} {e : Epoch} {x : PushInput} {evs : List Payout}
      {d : Distribution} (he : s.epochs id = some e)
      (h : handlePushPayouts (env.epoch s.router id e.coinMint) (s.distribution id) x =
        .ok (d, evs)) :
      PayoutDone env s (now, .pushed id e.coinMint x.keeper x.items x.dests) (s.store id d)
  | finalized {now : Int} {id : EpochId} {keeper : Pubkey} {merkleRoot : Bytes32}
      {merkleTotal : UInt64} {ev : EpochFinalized} {d : Distribution}
      (h : handleFinalizeEpoch (s.distribution id) keeper merkleRoot merkleTotal = .ok (d, ev)) :
      PayoutDone env s (now, .finalized id keeper merkleRoot merkleTotal) (s.store id d)
  | claimed {id : EpochId} {e : Epoch} {x : ClaimInput} {ev : Payout} {d : Distribution}
      (he : s.epochs id = some e) (hsigner : env.isSigner x.wallet = true)
      (h : handleClaim (env.epoch s.router id e.coinMint) (s.distribution id) x = .ok (d, ev)) :
      PayoutDone env s (x.now, .claimed id e.coinMint x.wallet x.amount) (s.store id d)
  | swept {id : EpochId} {e : Epoch} {x : SweepInput} {ev : EpochSwept} {d : Distribution}
      (he : s.epochs id = some e)
      (h : handleSweepUnclaimed (env.epoch s.router id e.coinMint) (s.distribution id) x =
        .ok (d, ev)) :
      PayoutDone env s (x.now, .swept id e.coinMint x.admin x.treasury ev.amount) (s.store id d)
  | configured {now : Int} {admin : Pubkey} {config : DistConfig}
      (h : Configures s.config admin config) :
      PayoutDone env s (now, .configured admin config) { s with config }
  | external {now : Int} {gift : Guarded → Nat} {L : Ledger}
      (h : Outside env s.router.ledger gift L) :
      PayoutDone env s (now, .external gift) { s with router := { s.router with ledger := L } }

section Inversion

variable {a : Int × PayoutAct}

theorem onEpoch_ok {α : Type} {id : EpochId} {h : DistResult (Distribution × α)} {ev : α}
    (hok : onEpoch s id h = .ok (s', ev)) : ∃ d, h = .ok (d, ev) ∧ s' = s.store id d := by
  unfold onEpoch at hok
  obtain ⟨⟨d, ev'⟩, hd, hok⟩ := bind_eq_ok.mp hok
  cases hok
  exact ⟨d, hd, rfl⟩

theorem loadCoinMint_ok {id : EpochId} {e : Epoch} {mint : Pubkey} (he : s.epochs id = some e)
    (h : loadCoinMint s id = .ok mint) : mint = e.coinMint := by
  unfold loadCoinMint at h
  obtain ⟨e', he', h⟩ := bind_eq_ok.mp h
  have heq : s.epochs id = some e' := loadEpoch_eq_ok.mp he'
  cases he.symm.trans heq
  cases h
  rfl

theorem configureWith_ok {config : DistResult DistConfig} (h : configureWith s config = .ok s') :
    config = .ok s'.config ∧ s' = { s with config := s'.config } := by
  unfold configureWith at h
  obtain ⟨c, hc, h⟩ := bind_eq_ok.mp h
  cases h
  exact ⟨hc, rfl⟩

theorem PayoutStep.done (h : PayoutStep env s a s') : PayoutDone env s a s' := by
  cases h with
  | router hact h => exact .router hact h
  | openEpoch hid hknown hsigns h =>
      subst hid
      obtain ⟨d, hd, rfl⟩ := onEpoch_ok h
      exact .opened rfl hknown hsigns hd
  | pushPayouts he h =>
      obtain ⟨mint, hmint, h⟩ := bind_eq_ok.mp h
      obtain rfl := loadCoinMint_ok he hmint
      obtain ⟨d, hd, rfl⟩ := onEpoch_ok h
      exact .pushed he hd
  | finalizeEpoch h =>
      obtain ⟨d, hd, rfl⟩ := onEpoch_ok h
      exact .finalized hd
  | claim he hsigner h =>
      obtain ⟨mint, hmint, h⟩ := bind_eq_ok.mp h
      obtain rfl := loadCoinMint_ok he hmint
      obtain ⟨d, hd, rfl⟩ := onEpoch_ok h
      exact .claimed he hsigner hd
  | sweepUnclaimed he h =>
      obtain ⟨mint, hmint, h⟩ := bind_eq_ok.mp h
      obtain rfl := loadCoinMint_ok he hmint
      obtain ⟨d, hd, rfl⟩ := onEpoch_ok h
      exact .swept he hd
  | setKeepers h =>
      obtain ⟨hc, heq⟩ := configureWith_ok h
      rw [heq]
      exact .configured (.setKeepers hc)
  | setParams h =>
      obtain ⟨hc, heq⟩ := configureWith_ok h
      rw [heq]
      exact .configured (.setParams hc)
  | elsewhere h => exact .external h

end Inversion

end IceMarkets.Payouts
