import IceMarkets.FeeRouter.Vaults

/-!
# IceMarkets.FeeRouter.Registration

When the instructions that read accounts of other programs as bytes accept them: a
permissionless registration (`handleRegisterPool_accepts_iff`) and the record of a migration
(`recordMigration_accepts_iff`). The bytes are those of the structures of
`IceMarkets.FeeRouter.Layout`; the rest is owners, the config and the token accounts.
-/

namespace IceMarkets.FeeRouter

open Layout

variable {env : RouterEnv} {s : RouterProgram}

/-! ### Creating the token accounts -/

section Vaults

variable {L L' : Ledger} {v w : Vault} {mint m : Pubkey}

/-- A vault `init_if_needed` accepts: its address is free, or holds such an account already. -/
def VaultReady (env : RouterEnv) (L : Ledger) (v : Vault) (mint : Pubkey) : Prop :=
  v.Known env ∧ (L (env.address v) = none ∨ L.Holds (env.address v) mint (v.authority env))

theorem exists_initVault_iff :
    (∃ L', initVault env L v mint = .ok L') ↔ VaultReady env L v mint := by
  unfold initVault VaultReady
  simp only [bind_eq_ok, loadKey_eq_ok]
  constructor
  · intro hx
    obtain ⟨L', _, hv, h⟩ := hx
    refine ⟨hv, ?_⟩
    unfold Ledger.initIfNeeded at h
    split at h
    · next hnone => exact Or.inl hnone
    · next a ha =>
        split_ifs at h with hsame
        exact Or.inr ⟨a, ha, hsame⟩
  · intro hx
    obtain ⟨hv, h⟩ := hx
    obtain ⟨L', h⟩ := Ledger.exists_initIfNeeded h
    exact ⟨L', (), hv, h⟩

/-- Creating one vault leaves the others as ready as they were. -/
theorem vaultReady_initVault (h : initVault env L v mint = .ok L') (hmint : w = v → m = mint) :
    VaultReady env L' w m ↔ VaultReady env L w m := by
  unfold VaultReady
  refine and_congr_right fun hw => ?_
  obtain ⟨hv, hfree⟩ := exists_initVault_iff.mp ⟨L', h⟩
  obtain ⟨_, -, h⟩ := bind_eq_ok.mp h
  obtain ⟨hholds, -, hother⟩ := Ledger.initIfNeeded_ok h
  by_cases hwv : w = v
  · obtain rfl := hmint hwv
    subst hwv
    exact iff_of_true (Or.inr hholds) hfree
  · have haddress : env.address w ≠ env.address v :=
      fun heq => hwv (env.address_injective w v hw hv heq)
    unfold Ledger.Holds
    rw [hother _ haddress]

/-- `init_if_needed` of several vaults, one after the other. -/
def initAll (env : RouterEnv) : Ledger → List (Vault × Pubkey) → Except AnchorError Ledger
  | L, [] => .ok L
  | L, (v, mint) :: vs => do
      let L ← initVault env L v mint
      initAll env L vs

/-- Vaults that agree on their mints can be created together if each can alone. -/
theorem exists_initAll_iff {vs : List (Vault × Pubkey)}
    (hmints : vs.Pairwise fun p q => q.1 = p.1 → q.2 = p.2) :
    (∃ L', initAll env L vs = .ok L') ↔ ∀ p ∈ vs, VaultReady env L p.1 p.2 := by
  induction vs generalizing L with
  | nil => simp [initAll]
  | cons p vs ih =>
      obtain ⟨v, mint⟩ := p
      obtain ⟨hhead, htail⟩ := List.pairwise_cons.mp hmints
      simp only [initAll, bind_eq_ok, List.forall_mem_cons]
      constructor
      · intro hx
        obtain ⟨L', L₁, h₁, h⟩ := hx
        refine ⟨exists_initVault_iff.mp ⟨L₁, h₁⟩, fun q hq => ?_⟩
        exact (vaultReady_initVault h₁ (hhead q hq)).mp ((ih htail).mp ⟨L', h⟩ q hq)
      · intro hx
        obtain ⟨hready, hrest⟩ := hx
        obtain ⟨L₁, h₁⟩ := exists_initVault_iff.mpr hready
        obtain ⟨L', h⟩ := (ih htail).mpr fun q hq =>
          (vaultReady_initVault h₁ (hhead q hq)).mpr (hrest q hq)
        exact ⟨L', L₁, h₁, h⟩

/-- The vaults of a registration that other pools may have already. -/
def sharedVaults (baseMint quoteMint : Pubkey) : List (Vault × Pubkey) :=
  [(.buyback quoteMint, quoteMint), (.treasury quoteMint, quoteMint),
    (.treasury baseMint, baseMint), (.recv quoteMint, quoteMint)]

/-- The token accounts of a registration can be created: nothing is at the holder vault's
address, and the shared vaults are free or theirs. -/
structure VaultsReady (env : RouterEnv) (L : Ledger) (pool baseMint quoteMint : Pubkey) : Prop where
  known : (Vault.holder pool).Known env
  free : L (env.address (.holder pool)) = none
  shared : ∀ p ∈ sharedVaults baseMint quoteMint, VaultReady env L p.1 p.2

theorem exists_initVaults_iff {pool baseMint quoteMint : Pubkey} :
    (∃ L', initVaults env L pool baseMint quoteMint = .ok L') ↔
      VaultsReady env L pool baseMint quoteMint := by
  have hmints : (sharedVaults baseMint quoteMint).Pairwise fun p q => q.1 = p.1 → q.2 = p.2 := by
    simp +contextual [sharedVaults]
  have heq : initVaults env L pool baseMint quoteMint = (do
      loadKey env (.holder pool)
      let L ← L.init (env.address (.holder pool)) quoteMint (env.poolKey pool)
      initAll env L (sharedVaults baseMint quoteMint)) := by
    have hlast : ∀ x : Except AnchorError Ledger, (x >>= fun L => .ok L) = x := bind_pure
    simp [initVaults, initAll, sharedVaults, hlast]
  rw [heq]
  -- the holder vault is none of the shared ones
  have hkeep : ∀ L₁, initVault env L (.holder pool) quoteMint = .ok L₁ →
      ((∀ p ∈ sharedVaults baseMint quoteMint, VaultReady env L₁ p.1 p.2) ↔
        ∀ p ∈ sharedVaults baseMint quoteMint, VaultReady env L p.1 p.2) := by
    intro L₁ h₁
    refine forall₂_congr fun p hp => vaultReady_initVault h₁ fun hholder => ?_
    simp only [sharedVaults, List.mem_cons, List.not_mem_nil, or_false] at hp
    rcases hp with rfl | rfl | rfl | rfl <;> cases hholder
  simp only [bind_eq_ok, loadKey_eq_ok]
  constructor
  · intro hx
    obtain ⟨L', _, hpool, L₁, h₁, h⟩ := hx
    obtain ⟨hfree, h₁⟩ := Ledger.init_ok h₁
    have hinit : initVault env L (.holder pool) quoteMint = .ok L₁ :=
      bind_eq_ok.mpr ⟨(), loadKey_eq_ok.mpr hpool, h₁⟩
    exact ⟨hpool, hfree, (hkeep L₁ hinit).mp ((exists_initAll_iff hmints).mp ⟨L', h⟩)⟩
  · intro hx
    obtain ⟨L₁, h₁⟩ : ∃ L₁, L.init (env.address (.holder pool)) quoteMint (env.poolKey pool) =
        .ok L₁ := by
      unfold Ledger.init
      rw [hx.free]
      exact ⟨_, rfl⟩
    have hinit : initVault env L (.holder pool) quoteMint = .ok L₁ :=
      bind_eq_ok.mpr ⟨(), loadKey_eq_ok.mpr hx.known, (Ledger.init_ok h₁).2⟩
    obtain ⟨L', h⟩ := (exists_initAll_iff hmints).mpr ((hkeep L₁ hinit).mpr hx.shared)
    exact ⟨L', (), hx.known, L₁, h₁, h⟩

end Vaults

/-! ### Registrations -/

section Register

variable {a : RegisterAccounts} {feeBps : UInt16}

/-- What both registrations ask for, whoever sends them. -/
structure Registrable (env : RouterEnv) (s : RouterProgram) (a : RegisterAccounts)
    (feeBps : UInt16) : Prop where
  dbcPool : a.dbcPool.owner = dbcProgramId
  dbcConfig : a.dbcConfig.owner = dbcProgramId
  fresh : s.pools a.dbcPool.key = none
  vaults : VaultsReady env s.ledger a.dbcPool.key a.baseMint a.quoteMint
  unpaused : s.config.paused = false
  fee_le : feeBps ≤ maxFeeBps

theorem registerWith_accepts_iff {creator : ProgramResult Pubkey} :
    (∃ s' ev, registerWith env s a feeBps creator = .ok (s', ev)) ↔
      Registrable env s a feeBps ∧ ∃ key, creator = .ok key := by
  constructor
  · intro hx
    obtain ⟨s', ev, h⟩ := hx
    obtain ⟨key, hkey, hdone⟩ := registerWith_ok h
    refine ⟨⟨hdone.dbcPool, hdone.dbcConfig, hdone.fresh, ?_, hdone.unpaused, hdone.fee_le⟩,
      key, hkey⟩
    unfold registerWith at h
    obtain ⟨-, h⟩ := require_bind_eq_ok.mp h
    obtain ⟨-, h⟩ := require_bind_eq_ok.mp h
    obtain ⟨_, -, h⟩ := bind_eq_ok.mp h
    obtain ⟨L, hL, -⟩ := bind_eq_ok.mp h
    exact exists_initVaults_iff.mp ⟨L, liftAnchor_eq_ok.mp hL⟩
  · intro hx
    obtain ⟨hok, key, rfl⟩ := hx
    obtain ⟨L, hL⟩ := exists_initVaults_iff.mpr hok.vaults
    unfold registerWith writePoolState
    simp only [require_of hok.dbcPool, require_of hok.dbcConfig, hok.fresh, hL,
      require_of hok.unpaused, require_of hok.fee_le, ok_bind]
    exact ⟨_, _, rfl⟩

/-- A permissionless registration is accepted, and lists the pool with `creator`, exactly for
accounts of DBC and peg_desk whose bytes fit together and name `creator`, while the pool is
new, the program runs and the token accounts can be created. -/
theorem handleRegisterPool_accepts_iff {creator : Pubkey} :
    (∃ s' ev acc, handleRegisterPool env s a feeBps = .ok (s', ev) ∧
        s'.pools a.dbcPool.key = some acc ∧ acc.listing = a.listing creator feeBps) ↔
      Registrable env s a feeBps ∧
        ∃ c p m, Matches env.key s.programs.pegDesk a c p m ∧ p.creator = creator := by
  rw [← validatePermissionless_eq_ok]
  have hlisted : ∀ s' key, RegisterDone env s a key feeBps s' →
      ∃ acc, s'.pools a.dbcPool.key = some acc ∧ acc.listing = a.listing key feeBps := by
    intro s' key hdone
    obtain ⟨acc, hpools, hlisting, -⟩ := hdone.pools
    exact ⟨acc, by rw [hpools, Function.update_self], hlisting⟩
  constructor
  · intro hx
    obtain ⟨s', ev, acc, h, hacc, hlisting⟩ := hx
    refine ⟨(registerWith_accepts_iff.mp ⟨s', ev, h⟩).1, ?_⟩
    obtain ⟨key, hkey, hdone⟩ := registerWith_ok h
    obtain ⟨acc', hacc', hlisting'⟩ := hlisted s' key hdone
    cases hacc.symm.trans hacc'
    have hcreator : key = creator := congrArg Listing.creator (hlisting'.symm.trans hlisting)
    rw [hkey, hcreator]
  · intro hx
    obtain ⟨hok, hvalid⟩ := hx
    obtain ⟨s', ev, h⟩ := registerWith_accepts_iff.mpr ⟨hok, creator, hvalid⟩
    obtain ⟨key, hkey, hdone⟩ := registerWith_ok h
    cases hvalid.symm.trans hkey
    obtain ⟨acc, hacc, hlisting⟩ := hlisted s' creator hdone
    exact ⟨s', ev, acc, h, hacc, hlisting⟩

end Register

/-! ### Migrations -/

section Migrated

variable {x : MigrationInput} {force : Bool}

/-- What `record_migration` asks for: the record names a DAMM v2 pool and a position in it,
whose NFT the router holds. -/
structure Recordable (env : RouterEnv) (s : RouterProgram) (x : MigrationInput) (force : Bool)
    (record : MigrationRecord) : Prop where
  authority : s.config.isAdminOrKeeper x.authority = true
  listed : ∃ acc, s.pools x.dbcPool.key = some acc
  dbcPool : x.dbcPool.owner = dbcProgramId
  migrated : (force = true ∧ x.authority = s.config.admin) ∨
    ∃ p : VirtualPool, x.dbcPool.data = p.bytes ∧ p.isMigrated ≠ 0
  dammPool : x.dammPool.owner = dammV2ProgramId ∧
    ∃ rest, x.dammPool.data = dammPoolDiscriminator ++ rest
  dammPosition : x.dammPosition.owner = dammV2ProgramId ∧
    ∃ q : Position, x.dammPosition.data = q.bytes ∧ q.pool = x.dammPool.key ∧
      x.positionNft = { mint := q.nftMint, owner := env.key, amount := 1 } ∧
      record = { dammPool := x.dammPool.key, dammPosition := x.dammPosition.key
                 positionNftMint := q.nftMint }

theorem checkMigrated_eq_ok {u : Unit} :
    checkMigrated s.config x.accounts force = .ok u ↔
      (force = true ∧ x.authority = s.config.admin) ∨
        ∃ p : VirtualPool, x.dbcPool.data = p.bytes ∧ p.isMigrated ≠ 0 := by
  unfold checkMigrated
  by_cases hforce : force = true ∧ x.accounts.authority = s.config.admin
  · exact iff_of_true (if_pos hforce) (Or.inl hforce)
  · rw [if_neg hforce]
    refine Iff.trans ?_ (or_iff_right hforce).symm
    simp only [okOr_bind_eq_ok, require_eq_ok]
    constructor
    · intro hx
      obtain ⟨_, h, rfl⟩ := hx
      obtain ⟨p, hp, hmigrated⟩ := readIsMigrated_eq_some.mp h
      exact ⟨p, hp, of_decide_eq_true hmigrated⟩
    · intro hx
      obtain ⟨p, hp, hmigrated⟩ := hx
      exact ⟨true, readIsMigrated_eq_some.mpr ⟨p, hp, decide_eq_true hmigrated⟩, rfl⟩

theorem record_of_bytes_eq_ok {ps ps' : PoolState} :
    handleRecordMigration s.config env.key ps x.accounts force = .ok ps' ↔
      x.positionNft.owner = env.key ∧ x.positionNft.amount = 1 ∧
        s.config.isAdminOrKeeper x.authority = true ∧
        ((force = true ∧ x.authority = s.config.admin) ∨
          ∃ p : VirtualPool, x.dbcPool.data = p.bytes ∧ p.isMigrated ≠ 0) ∧
        (∃ rest, x.dammPool.data = dammPoolDiscriminator ++ rest) ∧
        ∃ q : Position, x.dammPosition.data = q.bytes ∧ q.pool = x.dammPool.key ∧
          x.positionNft.mint = q.nftMint ∧
          { ps with
            migrated := true, dammPool := x.dammPool.key, dammPosition := x.dammPosition.key
            positionNftMint := q.nftMint } = ps' := by
  have hvalid : x.accounts.dammPoolValid = true ↔
      ∃ rest, x.dammPool.data = dammPoolDiscriminator ++ rest := by
    rw [← at_zero_iff, ← take_eq_iff (n := 8) rfl]
    refine decide_eq_true_iff.trans (and_iff_right_of_imp fun h => ?_)
    have hlen := congrArg List.length h
    simp only [List.length_take] at hlen
    have : dammPoolDiscriminator.length = 8 := rfl
    omega
  rw [handleRecordMigration_eq_ok, checkMigrated_eq_ok, hvalid]
  constructor
  · intro hx
    obtain ⟨howner, hamount, hauthority, hmigrated, hpool, _, hread, hq, hmint, rfl⟩ := hx
    obtain ⟨q, hdata, rfl⟩ := readPosition_eq_some.mp hread
    exact ⟨howner, hamount, hauthority, hmigrated, hpool, q, hdata, hq, hmint, rfl⟩
  · intro hx
    obtain ⟨howner, hamount, hauthority, hmigrated, hpool, q, hdata, hq, hmint, rfl⟩ := hx
    exact ⟨howner, hamount, hauthority, hmigrated, hpool, _,
      readPosition_eq_some.mpr ⟨q, hdata, rfl⟩, hq, hmint, rfl⟩

/-- A migration is recorded exactly for accounts that fit together; none of them is compared
with the mints of the pool. -/
theorem recordMigration_accepts_iff {record : MigrationRecord} :
    (∃ s' ev, recordMigration env s x force = .ok (s', ev) ∧
        (s'.router env).migration x.dbcPool.key = some record) ↔
      Recordable env s x force record := by
  unfold recordMigration
  simp only [bind_eq_ok, require_eq_ok, loadPoolAccount_eq_ok, liftRouter_eq_ok,
    record_of_bytes_eq_ok]
  constructor
  · intro hx
    obtain ⟨s', ev, ⟨acc, hacc, _, hdbc, _, hdamm, _, hposition, ps, hps, h⟩, hrecord⟩ := hx
    obtain ⟨howner, hamount, hauthority, hmigrated, hpool, q, hq, hqpool, hmint, rfl⟩ := hps
    cases h
    refine ⟨hauthority, ⟨acc, hacc⟩, hdbc, hmigrated, ⟨hdamm, hpool⟩, hposition, q, hq, hqpool,
      ?_, ?_⟩
    · rw [← hmint, ← howner, ← hamount]
    · simpa [RouterProgram.router, Router.migration, PoolState.migration] using hrecord.symm
  · intro hx
    obtain ⟨hposition, q, hq, hqpool, hnft, rfl⟩ := hx.dammPosition
    obtain ⟨hdamm, hpool⟩ := hx.dammPool
    obtain ⟨acc, hacc⟩ := hx.listed
    refine ⟨_, _, ⟨acc, hacc, (), hx.dbcPool, (), hdamm, (), hposition, _,
      ⟨?_, ?_, hx.authority, hx.migrated, hpool, q, hq, hqpool, ?_, rfl⟩, rfl⟩, ?_⟩
    · rw [hnft]
    · rw [hnft]
    · rw [hnft]
    · simp [RouterProgram.router, Router.migration, PoolState.migration]

end Migrated

end IceMarkets.FeeRouter
