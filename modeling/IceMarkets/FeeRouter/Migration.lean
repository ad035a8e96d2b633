import IceMarkets.FeeRouter.Conservation

/-!
# IceMarkets.FeeRouter.Migration

What a pool's account says of its migration. `record_migration` writes it and checks
its accounts against each other, not against the pool's mints; every other instruction
keeps it (`RouterStep.migration`).
-/

namespace IceMarkets.FeeRouter

/-- The DAMM v2 side of a pool, as its account has it. -/
structure MigrationRecord where
  dammPool : Pubkey
  dammPosition : Pubkey
  positionNftMint : Pubkey
  deriving DecidableEq, Repr

def PoolState.migration (ps : PoolState) : Option MigrationRecord :=
  if ps.migrated then
    some { dammPool := ps.dammPool, dammPosition := ps.dammPosition
           positionNftMint := ps.positionNftMint }
  else none

def Router.migration (s : Router) (pool : Pubkey) : Option MigrationRecord :=
  (s.pools pool).bind PoolState.migration

/-! ### The instruction that records -/

section Record

variable {config : RouterConfig} {router : Pubkey} {ps ps' : PoolState} {a : MigrationAccounts}
  {force : Bool}

/-- `record_migration` stores the DAMM accounts it was given. -/
theorem handleRecordMigration_ok (h : handleRecordMigration config router ps a force = .ok ps') :
    ∃ position, a.position = some position ∧ position.pool = a.dammPool ∧
      ps'.migration = some { dammPool := a.dammPool, dammPosition := a.dammPosition
                             positionNftMint := position.nftMint } := by
  obtain ⟨-, -, -, -, -, position, hposition, hpool, -, rfl⟩ := handleRecordMigration_eq_ok.mp h
  exact ⟨position, hposition, hpool, rfl⟩

/-- Any position the router holds passes its checks, whichever pool it is from. -/
theorem handleRecordMigration_accepts {position : DammPosition}
    (hauthority : config.isAdminOrKeeper a.authority = true) (hdbc : a.dbcPool = some true)
    (howner : a.positionNft.owner = router) (hamount : a.positionNft.amount = 1)
    (hvalid : a.dammPoolValid = true) (hposition : a.position = some position)
    (hpool : position.pool = a.dammPool) (hmint : a.positionNft.mint = position.nftMint) :
    handleRecordMigration config router ps a force = .ok { ps with
      migrated := true, dammPool := a.dammPool, dammPosition := a.dammPosition
      positionNftMint := position.nftMint } := by
  have hmigrated : checkMigrated config a force = .ok () := by
    unfold checkMigrated
    split
    · rfl
    · rw [hdbc]
      rfl
  exact handleRecordMigration_eq_ok.mpr
    ⟨howner, hamount, hauthority, hmigrated, hvalid, position, hposition, hpool, hmint, rfl⟩

end Record

/-! ### The instructions that keep it -/

section Keep

variable {s s' : Router} {pool : Pubkey}

/-- One pool was written, and its migration is what it was. -/
def WritesPool (s : Router) (pool : Pubkey) (s' : Router) (migration : Option MigrationRecord) :
    Prop :=
  ∃ ps', s'.pools = Function.update s.pools pool (some ps') ∧ ps'.migration = migration

theorem split_writes {ps : PoolState} {amount : UInt64} {ev : Option FeesSplit}
    (h : split s pool ps amount = .ok (s', ev)) : WritesPool s pool s' ps.migration := by
  obtain ⟨_, _, _, _, hpools⟩ := split_pools h
  exact ⟨_, hpools, rfl⟩

theorem receiveQuote_pools {mint : Pubkey} {amount seen : UInt64}
    (h : receiveQuote s mint amount = .ok (s', seen)) : s'.pools = s.pools := by
  obtain ⟨-, recv, rfl, -⟩ := receiveQuote_ok h
  rfl

/-- The pool a claim loaded is written back with the same migration. -/
theorem WritesPool.router_migration {s₁ : Router} {ps ps₁ : PoolState}
    (h : WritesPool s₁ pool s' ps₁.migration) (hpools : s₁.pools = s.pools)
    (hps : s.pools pool = some ps) (hsame : ps₁.migration = ps.migration) (key : Pubkey) :
    s'.migration key = s.migration key := by
  obtain ⟨ps', hwritten, hmigration⟩ := h
  unfold Router.migration
  rw [hwritten, hpools]
  by_cases hkey : key = pool
  · subst hkey
    rw [Function.update_self, hps]
    simp [hmigration, hsame]
  · rw [Function.update_of_ne hkey]

theorem Claims.migration {x : ClaimInput} {evs : ClaimEvents} (h : Claims s x (.ok (s', evs)))
    (key : Pubkey) : s'.migration key = s.migration key := by
  obtain ⟨ps, hends⟩ := h.ends
  obtain ⟨treasury, s₁, ts, -, hreceived, hsplit⟩ := hends.split
  exact (split_writes hsplit).router_migration (receiveQuote_pools hreceived) hends.pool rfl key

/-- A new pool has no migration yet. -/
theorem writePoolState_migration {c : RouterConfig} {baseMint quoteMint : Pubkey} {feeBps : UInt16}
    {ps : PoolState} (h : writePoolState c baseMint quoteMint feeBps = .ok ps) :
    ps.migration = none := by
  unfold writePoolState at h
  obtain ⟨-, h⟩ := require_bind_eq_ok.mp h
  obtain ⟨-, h⟩ := require_bind_eq_ok.mp h
  cases h
  rfl

/-- Recording a migration writes that pool's alone. -/
theorem Router.migration_update {ps : PoolState} (key : Pubkey) :
    Router.migration { s with pools := Function.update s.pools pool (some ps) } key =
      if key = pool then ps.migration else s.migration key := by
  unfold Router.migration
  by_cases hkey : key = pool
  · subst hkey
    simp
  · simp [hkey]

/-- No instruction but `record_migration` touches what a pool says of its migration. -/
theorem RouterStep.migration {act : RouterAct} (h : RouterStep s act s')
    (hact : ∀ pool, act ≠ .migrated pool) (key : Pubkey) : s'.migration key = s.migration key := by
  cases h with
  | claim h => exact h.migration key
  | configure _ => rfl
  | @register pool _ _ _ ps hnew h =>
      rw [Router.migration_update]
      by_cases hkey : key = pool
      · rw [if_pos hkey, writePoolState_migration h, hkey, Router.migration, hnew]
        rfl
      · rw [if_neg hkey]
  | recordMigration _ _ => exact absurd rfl (hact _)
  | move _ => rfl

end Keep

end IceMarkets.FeeRouter
