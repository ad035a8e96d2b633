import IceMarkets.FeeRouter.Vaults
import IceMarkets.Lib.Run

/-!
# IceMarkets.FeeRouter.ProgramRun

Runs of the whole program: its instructions by any signers and with any arguments, among
other transactions on the ledger. `ProgramStep.done` says once what a step of each label did;
what registration fixed of a pool stays over a run (`ProgramRun.keeps`).
-/

namespace IceMarkets.FeeRouter

open Lts

/-! ### Runs -/

/-- What a step did. -/
inductive ProgramAct
  | claimed (x : ClaimInput) (baseMint quoteMint : Pubkey) (evs : ClaimEvents)
  | withdrawn (kind : WithdrawKind) (signer : Pubkey) (v : Vault) (destination : Pubkey)
      (amount : UInt64)
  /-- With peg_desk's id where the accounts were validated. -/
  | registered (a : RegisterAccounts) (listing : Listing) (pegDesk : Option Pubkey)
  | migrated (pool : Pubkey)
  | configured (admin : Pubkey)
  | external (gift : Vault → Nat)

/-- What other transactions may do to the ledger: nobody but the program takes from its
vaults, whose authorities are its PDAs. -/
structure Outside (env : RouterEnv) (L : Ledger) (gift : Vault → Nat) (L' : Ledger) : Prop where
  amount : ∀ v, v.Known env → L'.amount (env.address v) = L.amount (env.address v) + gift v
  owned : ∀ v, v.Known env → L.OwnedBy (env.address v) (v.authority env) →
    L'.OwnedBy (env.address v) (v.authority env)

/-- An accepted instruction, or another transaction. -/
inductive ProgramStep (env : RouterEnv) (s : RouterProgram) : ProgramAct → RouterProgram → Prop
  | claim {kind : ClaimKind} {x : ClaimInput} {acc : PoolAccount} {evs : ClaimEvents}
      {s' : RouterProgram} (hacc : s.pools x.pool = some acc)
      (h : handleClaim env s kind x = .ok (s', evs)) :
      ProgramStep env s (.claimed x acc.baseMint acc.quoteMint evs) s'
  | withdrawForEpoch {signer pool destination : Pubkey} {amount : UInt64} {ev : VaultWithdrawn}
      {s' : RouterProgram}
      (h : handleWithdrawForEpoch env s signer pool destination amount = .ok (s', ev)) :
      ProgramStep env s (.withdrawn .epoch signer (.holder pool) destination amount) s'
  | withdrawForBuyback {signer coinMint destination : Pubkey} {amount : UInt64}
      {ev : VaultWithdrawn} {s' : RouterProgram}
      (h : handleWithdrawForBuyback env s signer coinMint destination amount = .ok (s', ev)) :
      ProgramStep env s (.withdrawn .buyback signer (.buyback coinMint) destination amount) s'
  | withdrawTreasury {signer mint destination : Pubkey} {amount : UInt64} {ev : VaultWithdrawn}
      {s' : RouterProgram}
      (h : handleWithdrawTreasury env s signer mint destination amount = .ok (s', ev)) :
      ProgramStep env s (.withdrawn .treasury signer (.treasury mint) destination amount) s'
  | registerPool {a : RegisterAccounts} {feeBps : UInt16} {creator : Pubkey} {ev : PoolRegistered}
      {s' : RouterProgram} (hcreator : validatePermissionless env.key s.programs.pegDesk a =
        .ok creator) (h : handleRegisterPool env s a feeBps = .ok (s', ev)) :
      ProgramStep env s (.registered a (a.listing creator feeBps) (some s.programs.pegDesk)) s'
  | registerPoolAdmin {a : RegisterAccounts} {feeBps : UInt16} {creator : Pubkey}
      {ev : PoolRegistered} {s' : RouterProgram}
      (h : handleRegisterPoolAdmin env s a feeBps creator = .ok (s', ev)) :
      ProgramStep env s (.registered a (a.listing creator feeBps) none) s'
  | recordMigration {x : MigrationInput} {force : Bool} {ev : RouterMigrationRecorded}
      {s' : RouterProgram} (h : recordMigration env s x force = .ok (s', ev)) :
      ProgramStep env s (.migrated x.dbcPool.key) s'
  | setSplit {admin : Pubkey} {h b p : UInt16} {s' : RouterProgram}
      (hset : setSplit s admin h b p = .ok s') : ProgramStep env s (.configured admin) s'
  | setKeepers {admin : Pubkey} {keepers : List Pubkey} {s' : RouterProgram}
      (hset : setKeepers s admin keepers = .ok s') : ProgramStep env s (.configured admin) s'
  | pause {admin : Pubkey} {paused : Bool} {s' : RouterProgram}
      (hset : pause s admin paused = .ok s') : ProgramStep env s (.configured admin) s'
  | setPrograms {admin newAdmin : Pubkey} {programs : RouterPrograms} {s' : RouterProgram}
      (hset : setPrograms s admin programs newAdmin = .ok s') :
      ProgramStep env s (.configured admin) s'
  | elsewhere {gift : Vault → Nat} {L : Ledger} (h : Outside env s.ledger gift L) :
      ProgramStep env s (.external gift) { s with ledger := L }

abbrev ProgramRun (env : RouterEnv) : RouterProgram → List ProgramAct → RouterProgram → Prop :=
  Run (ProgramStep env)

/-- Who may withdraw. -/
def WithdrawKind.MaySign (env : RouterEnv) (s : RouterProgram) (signer : Pubkey) :
    WithdrawKind → Vault → Prop
  | epoch, .holder _ => s.config.paused = false ∧ signer = env.distAuth s.programs.distributor
  | buyback, .buyback _ => s.config.paused = false ∧ signer = env.bbAuth s.programs.buyback
  | treasury, .treasury _ => signer = s.config.admin
  | _, _ => False

/-- What a step of each label did; results about runs are read off these. -/
inductive Done (env : RouterEnv) (s : RouterProgram) : ProgramAct → RouterProgram → Prop
  | claimed {x : ClaimInput} {acc : PoolAccount} {evs : ClaimEvents} {s' : RouterProgram}
      (h : ClaimDone env s x acc s' evs) : Done env s (.claimed x acc.baseMint acc.quoteMint evs) s'
  | withdrawn {kind : WithdrawKind} {signer : Pubkey} {v : Vault} {destination : Pubkey}
      {amount : UInt64} {s' : RouterProgram} (hsign : kind.MaySign env s signer v)
      (h : WithdrawDone env s v destination amount s') :
      Done env s (.withdrawn kind signer v destination amount) s'
  | registered {a : RegisterAccounts} {creator : Pubkey} {feeBps : UInt16} {pegDesk : Option Pubkey}
      {s' : RouterProgram} (hvalid : ∀ key ∈ pegDesk, ∃ c p m, Matches env.key key a c p m ∧
        p.creator = creator) (hadmin : pegDesk = none → a.payer = s.config.admin)
      (h : RegisterDone env s a creator feeBps s') :
      Done env s (.registered a (a.listing creator feeBps) pegDesk) s'
  | migrated {x : MigrationInput} {force : Bool} {acc : PoolAccount} {ps : PoolState}
      {s' : RouterProgram} (h : RecordDone env s x force acc ps s') :
      Done env s (.migrated x.dbcPool.key) s'
  | configured {admin : Pubkey} {config : RouterConfig} {programs : RouterPrograms}
      (h : Configures s.config admin config) :
      Done env s (.configured admin) { s with config, programs }
  | external {gift : Vault → Nat} {L : Ledger} (h : Outside env s.ledger gift L) :
      Done env s (.external gift) { s with ledger := L }

section Steps

variable {env : RouterEnv} {s s' : RouterProgram} {act : ProgramAct}

theorem ProgramStep.done (h : ProgramStep env s act s') (hc : s.config.Splits) :
    Done env s act s' := by
  cases h with
  | @claim kind x acc evs _ hacc h =>
      obtain ⟨acc', hdone⟩ := handleClaim_ok hc h
      cases hacc.symm.trans hdone.pool
      exact .claimed hdone
  | withdrawForEpoch h =>
      obtain ⟨⟨hpaused, -, hsigner⟩, hdone⟩ := handleWithdrawForEpoch_ok h
      exact .withdrawn ⟨hpaused, hsigner⟩ hdone
  | withdrawForBuyback h =>
      obtain ⟨⟨hpaused, -, hsigner⟩, hdone⟩ := handleWithdrawForBuyback_ok h
      exact .withdrawn ⟨hpaused, hsigner⟩ hdone
  | withdrawTreasury h =>
      obtain ⟨⟨hadmin, -⟩, hdone⟩ := handleWithdrawTreasury_ok h
      exact .withdrawn hadmin.symm hdone
  | registerPool hcreator h =>
      obtain ⟨c, p, m, hmatches, hdone⟩ := handleRegisterPool_ok h
      obtain rfl := Except.ok.inj (hcreator.symm.trans
        (validatePermissionless_eq_ok.mpr ⟨c, p, m, hmatches, rfl⟩))
      refine .registered ?_ nofun hdone
      intro key hkey
      cases hkey
      exact ⟨c, p, m, hmatches, rfl⟩
  | registerPoolAdmin h =>
      obtain ⟨hadmin, hdone⟩ := handleRegisterPoolAdmin_ok h
      exact .registered nofun (fun _ => hadmin) hdone
  | recordMigration h =>
      obtain ⟨acc, ps, hdone⟩ := recordMigration_ok h
      exact .migrated hdone
  | setSplit hset =>
      obtain ⟨c, hc, rfl⟩ := configureWith_ok hset
      exact .configured (.setSplit hc)
  | setKeepers hset =>
      obtain ⟨c, hc, rfl⟩ := configureWith_ok hset
      exact .configured (.setKeepers hc)
  | pause hset =>
      obtain ⟨c, hc, rfl⟩ := configureWith_ok hset
      exact .configured (.pause hc)
  | setPrograms hset =>
      obtain ⟨c, hc, rfl⟩ := setPrograms_ok hset
      exact .configured (.setPrograms hc)
  | elsewhere h => exact .external h

/-- Every accepted config splits the whole. -/
theorem ProgramStep.splits (hstep : ProgramStep env s act s') (hc : s.config.Splits) :
    s'.config.Splits := by
  cases hstep.done hc with
  | claimed h => rw [h.config]; exact hc
  | withdrawn _ h => rw [h.state]; exact hc
  | registered _ _ h => rw [h.state]; exact hc
  | migrated h => rw [h.state]; exact hc
  | configured h => exact h.splits hc
  | external _ => exact hc

end Steps

/-! ### What a pool's account keeps -/

section Pools

variable {env : RouterEnv} {s s' : RouterProgram} {act : ProgramAct}

/-- Registered pools stay, with what registration fixed. -/
def Keeps (s s' : RouterProgram) : Prop :=
  ∀ pool acc, s.pools pool = some acc →
    ∃ acc', s'.pools pool = some acc' ∧ acc'.listing = acc.listing

theorem keeps_update {pool : Pubkey} {acc' : PoolAccount}
    (hpools : s'.pools = Function.update s.pools pool (some acc'))
    (h : ∀ acc, s.pools pool = some acc → acc'.listing = acc.listing) : Keeps s s' := by
  intro key acc hacc
  rw [hpools]
  by_cases hkey : key = pool
  · subst hkey
    exact ⟨acc', Function.update_self .., h acc hacc⟩
  · exact ⟨acc, by rw [Function.update_of_ne hkey, hacc], rfl⟩

theorem keeps_of_pools (hpools : s'.pools = s.pools) : Keeps s s' := by
  intro pool acc hacc
  exact ⟨acc, by rw [hpools, hacc], rfl⟩

/-- A migration record leaves the pool's mints alone. -/
theorem handleRecordMigration_mints {router : Pubkey} {c : RouterConfig} {ps ps' : PoolState}
    {a : MigrationAccounts} {force : Bool}
    (h : handleRecordMigration c router ps a force = .ok ps') :
    ps'.baseMint = ps.baseMint ∧ ps'.quoteMint = ps.quoteMint := by
  obtain ⟨-, -, -, -, -, position, -, -, -, rfl⟩ := handleRecordMigration_eq_ok.mp h
  exact ⟨rfl, rfl⟩

theorem ProgramStep.keeps (hstep : ProgramStep env s act s') (hc : s.config.Splits) :
    Keeps s s' := by
  cases hstep.done hc with
  | claimed h =>
      obtain ⟨acc', hpools, hlisting, -⟩ := h.pools
      refine keeps_update hpools fun acc hacc => ?_
      cases h.pool.symm.trans hacc
      exact hlisting
  | withdrawn _ h => exact keeps_of_pools (by rw [h.state])
  | registered _ _ h =>
      obtain ⟨acc', hpools, -, -⟩ := h.pools
      refine keeps_update hpools fun acc hacc => ?_
      rw [h.fresh] at hacc
      cases hacc
  | migrated h =>
      refine keeps_update (by rw [h.state]) fun acc hacc => ?_
      cases h.pool.symm.trans hacc
      obtain ⟨hbase, hquote⟩ := handleRecordMigration_mints h.record
      simp only [PoolAccount.listing, hbase, hquote]
  | configured _ => exact keeps_of_pools rfl
  | external _ => exact keeps_of_pools rfl

end Pools

/-! ### Whole runs -/

section Runs

variable {env : RouterEnv} {s s' : RouterProgram} {tr : List ProgramAct}

theorem ProgramRun.splits (h : ProgramRun env s tr s') (hc : s.config.Splits) :
    s'.config.Splits :=
  h.invariant (I := fun s => s.config.Splits) (fun _ _ _ hstep hc => hstep.splits hc) hc

theorem ProgramRun.keeps (h : ProgramRun env s tr s') (hc : s.config.Splits) : Keeps s s' := by
  induction h with
  | nil s => exact keeps_of_pools rfl
  | cons head _ ih =>
      intro pool acc hacc
      obtain ⟨acc₁, hacc₁, hlisting₁⟩ := head.keeps hc pool acc hacc
      obtain ⟨acc₂, hacc₂, hlisting₂⟩ := ih (head.splits hc) pool acc₁ hacc₁
      exact ⟨acc₂, hacc₂, hlisting₂.trans hlisting₁⟩

/-- A claim of a run is of a pool that is still listed with its mints. -/
theorem ProgramRun.claimed_listed (h : ProgramRun env s tr s') (hc : s.config.Splits)
    {x : ClaimInput} {baseMint quoteMint : Pubkey} {evs : ClaimEvents}
    (hmem : .claimed x baseMint quoteMint evs ∈ tr) :
    ∃ acc, s'.pools x.pool = some acc ∧ acc.baseMint = baseMint ∧ acc.quoteMint = quoteMint := by
  induction h with
  | nil s => cases hmem
  | cons head tail ih =>
      rcases List.mem_cons.mp hmem with heq | hmem
      · obtain rfl := heq
        cases head.done hc with
        | @claimed _ acc _ _ h =>
            have hstep := head.keeps hc x.pool acc h.pool
            obtain ⟨acc₁, hacc₁, hlisting₁⟩ := hstep
            obtain ⟨acc₂, hacc₂, hlisting₂⟩ := ProgramRun.keeps tail (head.splits hc) _ _ hacc₁
            have hlisting := hlisting₂.trans hlisting₁
            simp only [PoolAccount.listing, Listing.mk.injEq] at hlisting
            exact ⟨acc₂, hacc₂, hlisting.1, hlisting.2.1⟩
      · exact ih (head.splits hc) hmem

/-- A pool a step leaves was there before, or was registered by it. -/
theorem ProgramStep.listed {act : ProgramAct} (hstep : ProgramStep env s act s')
    (hc : s.config.Splits) {pool : Pubkey} {acc : PoolAccount} (hacc : s'.pools pool = some acc) :
    (∃ acc₀, s.pools pool = some acc₀ ∧ acc₀.listing = acc.listing) ∨
      ∃ a pegDesk, act = .registered a acc.listing pegDesk ∧ a.dbcPool.key = pool ∧
        a.dbcPool.owner = dbcProgramId ∧ a.dbcConfig.owner = dbcProgramId ∧
        ∀ key ∈ pegDesk, ∃ c p m, Matches env.key key a c p m ∧ p.creator = acc.creator := by
  by_cases hs : s.pools pool = none
  · right
    cases hstep.done hc with
    | claimed h =>
        obtain ⟨acc', hpools, -⟩ := h.pools
        have hne : pool ≠ _ := fun hx => by rw [hx, h.pool] at hs; cases hs
        rw [hpools, Function.update_of_ne hne, hs] at hacc
        cases hacc
    | withdrawn _ h =>
        rw [h.state] at hacc
        cases hs.symm.trans hacc
    | @registered a creator feeBps pegDesk _ hvalid hadmin h =>
        obtain ⟨acc', hpools, hlisting, -⟩ := h.pools
        by_cases hkey : pool = a.dbcPool.key
        · rw [hpools, hkey, Function.update_self, Option.some.injEq] at hacc
          subst hacc
          have hcreator : acc'.creator = creator := congrArg Listing.creator hlisting
          rw [hlisting, hcreator]
          exact ⟨a, pegDesk, rfl, hkey.symm, h.dbcPool, h.dbcConfig, hvalid⟩
        · rw [hpools, Function.update_of_ne hkey, hs] at hacc
          cases hacc
    | migrated h =>
        have hne : pool ≠ _ := fun hx => by rw [hx, h.pool] at hs; cases hs
        rw [h.state] at hacc
        simp only [Function.update_of_ne hne, hs] at hacc
        cases hacc
    | configured _ => cases hs.symm.trans hacc
    | external _ => cases hs.symm.trans hacc
  · left
    obtain ⟨acc₀, hacc₀⟩ := Option.ne_none_iff_exists'.mp hs
    obtain ⟨acc₁, hacc₁, hlisting⟩ := hstep.keeps hc pool acc₀ hacc₀
    cases hacc.symm.trans hacc₁
    exact ⟨acc₀, hacc₀, hlisting.symm⟩

/-- A pool at the end of a run was there at its start, or was registered in it. -/
theorem ProgramRun.listed (h : ProgramRun env s tr s') (hc : s.config.Splits) {pool : Pubkey}
    {acc : PoolAccount} (hacc : s'.pools pool = some acc) :
    (∃ acc₀, s.pools pool = some acc₀ ∧ acc₀.listing = acc.listing) ∨
      ∃ a pegDesk, .registered a acc.listing pegDesk ∈ tr ∧ a.dbcPool.key = pool ∧
        a.dbcPool.owner = dbcProgramId ∧ a.dbcConfig.owner = dbcProgramId ∧
        ∀ key ∈ pegDesk, ∃ c p m, Matches env.key key a c p m ∧ p.creator = acc.creator := by
  induction h with
  | nil s => exact .inl ⟨acc, hacc, rfl⟩
  | cons head _ ih =>
      rcases ih (head.splits hc) hacc with ⟨acc₁, hacc₁, hlisting⟩ | ⟨a, pegDesk, hmem, hrest⟩
      · have hcreator : acc₁.creator = acc.creator := congrArg Listing.creator hlisting
        rcases head.listed hc hacc₁ with ⟨acc₀, hacc₀, hlisting₀⟩ | ⟨a, pegDesk, hact, hrest⟩
        · exact .inl ⟨acc₀, hacc₀, hlisting₀.trans hlisting⟩
        · rw [hlisting] at hact
          rw [hcreator] at hrest
          exact .inr ⟨a, pegDesk, hact ▸ List.mem_cons_self, hrest⟩
      · exact .inr ⟨a, pegDesk, List.mem_cons_of_mem _ hmem, hrest⟩

end Runs

end IceMarkets.FeeRouter
