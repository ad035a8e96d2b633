import IceMarkets.FeeRouter.Migration
import IceMarkets.Indexer.Aggregates
import IceMarkets.Keeper.Partition

/-!
# IceMarkets.Keeper.Migrate

The migrate cycle (`apps/keeper/src/cycles/migrate.ts`, `positions.ts`), beside the chain
and the indexer.

A migration leaves no trace of its DAMM pool in the DBC pool, so the cycle finds a pool's
position by elimination: the first one the router holds whose DAMM pool the database has for
no pool. `record_migration` compares the position with the DAMM pool and the NFT alone. So a
pool gets its own position as long as every look meets that one first (`migrations_own`),
and a look that meets another first can end in a wrong record (`misrecorded`).

Migrations, records and database writes fall between any two of the cycle's steps, and it may
crash before any of them. What the cycle sends lands whenever it lands, at most once a
signature, also when the cycle has given it up.
-/

namespace IceMarkets.Keeper

open FeeRouter Indexer Indexer.Ingest Lts

/-! ### The cycle's reads and writes -/

/-- A DAMM v2 position whose NFT the router holds. -/
structure RouterPosition where
  nftMint : Pubkey
  nftAccount : Pubkey
  position : Pubkey
  pool : Pubkey
  deriving DecidableEq, Repr

def listUnmigratedPools (db : EventDb) : List String :=
  (db.pools.filter (·.migratedAt.isNone)).map (·.dbcPool)

/-- The `damm_pool` texts of `listAllPools`. -/
def knownDammPools (db : EventDb) : List String :=
  (db.pools.filterMap (·.dammPool)).filter (· ≠ "")

/-- The first router position whose DAMM pool is not known. -/
def findNewPosition (base58 : Pubkey → String) (known : List String)
    (positions : List RouterPosition) : Option RouterPosition :=
  (positions.filter fun p => !known.contains (base58 p.pool)).head?

def markPoolMigrated (dbcPool dammPool : String) (now : Int) (db : EventDb) : EventDb :=
  { db with pools := db.pools.map fun q =>
      if q.dbcPool = dbcPool then
        { q with migratedAt := some now, dammPool := some dammPool }
      else q }



/-! ### The system -/

/-- A signed `record_migration`. -/
structure RecordTx where
  dbcPool : Pubkey
  pos : RouterPosition
  deriving DecidableEq, Repr

/-- Where the cycle is; `pools` are those it comes to next. -/
inductive CyclePoint
  | idle
  | visiting (pools : List Pubkey)
  /-- The pool reads as migrated, or its migration was confirmed. -/
  | migrated (pool : Pubkey) (pools : List Pubkey)
  /-- In `findNewPosition`, with what `listAllPools` returned. -/
  | finding (pool : Pubkey) (known : List String) (pools : List Pubkey)
  /-- In `sendWithPriority`, with the signatures of its attempts, the last first. -/
  | sending (tx : RecordTx) (sigs : List Nat) (pools : List Pubkey)
  | marking (tx : RecordTx) (pools : List Pubkey)
  deriving DecidableEq, Repr

/-- The pools left once the one at hand is skipped or has thrown. -/
def CyclePoint.remaining : CyclePoint → Option (List Pubkey)
  | .visiting (_ :: pools) => some pools
  | .migrated _ pools => some pools
  | .finding _ _ pools => some pools
  | .sending _ _ pools => some pools
  | .marking _ pools => some pools
  | _ => none

/-- The chain, the database and the keeper. A signature is a place in `sent`. -/
structure MigrationWorld where
  router : Router
  /-- What the migration of a DBC pool minted to the router. -/
  minted : (dbcPool : Pubkey) → Option RouterPosition
  /-- The positions whose NFT the router holds. -/
  positions : List RouterPosition
  db : EventDb
  keeper : CyclePoint
  sent : List RecordTx
  landed : List Nat
  /-- The events emitted so far. -/
  recorded : List MigrationRecorded

structure MigrateEnv where
  base58 : Pubkey → String
  ingest : IngestEnv
  keeper : Pubkey

/-- The accounts of a `record_migration` as they lie on the chain. -/
def recordAccounts (keeper : Pubkey) (w : MigrationWorld) (tx : RecordTx) : MigrationAccounts where
  authority := keeper
  dbcPool := some (w.minted tx.dbcPool).isSome
  dammPool := tx.pos.pool
  dammPoolValid := true
  dammPosition := tx.pos.position
  position := some { pool := tx.pos.pool, nftMint := tx.pos.nftMint }
  positionNft := { mint := tx.pos.nftMint, owner := w.router.key, amount := 1 }

inductive MigrateAct
  | router (act : RouterAct)
  | migrate (dbcPool : Pubkey) (pos : RouterPosition)
  | gift (pos : RouterPosition)
  | ingest (ev : IcemarketsEvent)
  | start
  | seen
  | leave
  | readKnown
  | listed (positions : List RouterPosition)
  | send
  | land (sig : Nat)
  | confirm
  | mark
  | finish
  | crash

inductive MigrateStep (env : MigrateEnv) (w : MigrationWorld) : MigrateAct → MigrationWorld → Prop
  /-- Another instruction of the fee router. -/
  | router {act : RouterAct} {router : Router} (h : RouterStep w.router act router)
      (hact : ∀ pool, act ≠ .migrated pool) : MigrateStep env w (.router act) { w with router }
  /-- A migration creates its DAMM pool and that pool's first positions. -/
  | migrate {dbcPool : Pubkey} {pos : RouterPosition} (hnew : w.minted dbcPool = none)
      (hpos : ∀ p ∈ w.positions, p.pool ≠ pos.pool ∧ p.position ≠ pos.position) :
      MigrateStep env w (.migrate dbcPool pos)
        { w with minted := Function.update w.minted dbcPool (some pos)
                 positions := w.positions ++ [pos] }
  /-- Anyone may send the router the NFT of a position of theirs. -/
  | gift {pos : RouterPosition} (hpos : ∀ p ∈ w.positions, p.position ≠ pos.position) :
      MigrateStep env w (.gift pos) { w with positions := w.positions ++ [pos] }
  /-- An event is ingested, a `MigrationRecorded` only if it was emitted. -/
  | ingest {tx : EventTx} {ev : IcemarketsEvent} {db : EventDb}
      (hev : ∀ pool dammPool, ev = .migrationRecorded pool dammPool →
        ∃ e ∈ w.recorded, pool = env.base58 e.pool ∧ dammPool = env.base58 e.dammPool)
      (h : applyEvent env.ingest tx ev w.db = .ok db) : MigrateStep env w (.ingest ev) { w with db }
  | start {pools : List Pubkey} (hat : w.keeper = .idle)
      (hpools : (pools.map env.base58).Perm (listUnmigratedPools w.db)) :
      MigrateStep env w .start { w with keeper := .visiting pools }
  | seen {pool : Pubkey} {pools : List Pubkey} (hat : w.keeper = .visiting (pool :: pools))
      (hmigrated : (w.minted pool).isSome = true) :
      MigrateStep env w .seen { w with keeper := .migrated pool pools }
  /-- The curve is not complete, or a call failed. -/
  | leave {pools : List Pubkey} (hat : w.keeper.remaining = some pools) :
      MigrateStep env w .leave { w with keeper := .visiting pools }
  | readKnown {pool : Pubkey} {pools : List Pubkey} (hat : w.keeper = .migrated pool pools) :
      MigrateStep env w .readKnown { w with keeper := .finding pool (knownDammPools w.db) pools }
  /-- Nothing promises an order of the token accounts. -/
  | listed {pool : Pubkey} {known : List String} {pools : List Pubkey}
      {positions : List RouterPosition} (hat : w.keeper = .finding pool known pools)
      (hpositions : positions.Perm w.positions) :
      MigrateStep env w (.listed positions)
        { w with keeper :=
            match findNewPosition env.base58 known positions with
            | none => .visiting pools
            | some pos => .sending { dbcPool := pool, pos } [] pools }
  | send {tx : RecordTx} {sigs : List Nat} {pools : List Pubkey}
      (hat : w.keeper = .sending tx sigs pools) (hretries : sigs.length < maxRetries) :
      MigrateStep env w .send
        { w with sent := w.sent ++ [tx], keeper := .sending tx (w.sent.length :: sigs) pools }
  | land {sig : Nat} {tx : RecordTx} {ps ps' : PoolState} (hsent : w.sent[sig]? = some tx)
      (hnew : sig ∉ w.landed) (hps : w.router.pools tx.dbcPool = some ps)
      (h : handleRecordMigration w.router.config w.router.key ps
        (recordAccounts env.keeper w tx) false =
        .ok ps') :
      MigrateStep env w (.land sig)
        { w with
          router := { w.router with pools := Function.update w.router.pools tx.dbcPool (some ps') }
          landed := sig :: w.landed
          recorded := w.recorded ++ [{ pool := tx.dbcPool, dammPool := tx.pos.pool }] }
  | confirm {tx : RecordTx} {sig : Nat} {sigs : List Nat} {pools : List Pubkey}
      (hat : w.keeper = .sending tx (sig :: sigs) pools) (hlanded : sig ∈ w.landed) :
      MigrateStep env w .confirm { w with keeper := .marking tx pools }
  | mark {tx : RecordTx} {pools : List Pubkey} {now : Int} (hat : w.keeper = .marking tx pools) :
      MigrateStep env w .mark
        { w with db := markPoolMigrated (env.base58 tx.dbcPool) (env.base58 tx.pos.pool) now w.db
                 keeper := .visiting pools }
  | finish (hat : w.keeper = .visiting []) : MigrateStep env w .finish { w with keeper := .idle }
  | crash : MigrateStep env w .crash { w with keeper := .idle }

/-- A run of the system. -/
abbrev MigrateRun (env : MigrateEnv) : MigrationWorld → List MigrateAct → MigrationWorld → Prop :=
  Run (MigrateStep env)

/-- Before the first pool. -/
structure MigrationWorld.Fresh (w : MigrationWorld) : Prop where
  router : w.router.Fresh
  minted : ∀ dbcPool, w.minted dbcPool = none
  positions : w.positions = []
  pools : w.db.pools = []
  keeper : w.keeper = .idle
  sent : w.sent = []
  landed : w.landed = []
  recorded : w.recorded = []

/-- A pool with a recorded migration has the DAMM pool and position of its own migration, and
shares neither with another. -/
structure RecordsOwn (w : MigrationWorld) : Prop where
  own : ∀ dbcPool ps, w.router.pools dbcPool = some ps → ps.migrated = true →
    ∃ pos, w.minted dbcPool = some pos ∧ ps.dammPool = pos.pool ∧ ps.dammPosition = pos.position
  apart : ∀ dbcPool dbcPool' ps ps', w.router.pools dbcPool = some ps →
    w.router.pools dbcPool' = some ps' → ps.migrated = true → ps'.migrated = true →
    dbcPool ≠ dbcPool' → ps.dammPool ≠ ps'.dammPool ∧ ps.dammPosition ≠ ps'.dammPosition

/-- When the positions are listed, none with an unknown DAMM pool comes before the pool's own. -/
def OwnFirst (env : MigrateEnv) (w : MigrationWorld) (act : MigrateAct) : Prop :=
  ∀ pool known pools positions, w.keeper = .finding pool known pools → act = .listed positions →
    ∀ before p after, positions = before ++ p :: after → env.base58 p.pool ∉ known →
      w.minted pool = some p ∨
        ∃ own ∈ before, w.minted pool = some own ∧ env.base58 own.pool ∉ known

theorem OwnFirst.of_ne {env : MigrateEnv} {w : MigrationWorld} {act : MigrateAct}
    (h : ∀ positions, act ≠ .listed positions) : OwnFirst env w act := by
  intro pool known pools positions _ hact
  exact absurd hact (h positions)

/-! ### Finding by elimination -/

section Finding

variable {base58 : Pubkey → String} {known : List String} {positions : List RouterPosition}
  {own : Option RouterPosition} {pos : RouterPosition}

theorem findNewPosition_eq_some : findNewPosition base58 known positions = some pos ↔
    base58 pos.pool ∉ known ∧ ∃ before after, positions = before ++ pos :: after ∧
      ∀ p ∈ before, base58 p.pool ∈ known := by
  unfold findNewPosition
  rw [List.head?_filter, List.find?_eq_some_iff_append]
  simp

/-- What is found is the pool's own position exactly when no unknown one is in front of it. -/
theorem found_own_iff :
    (∀ pos, findNewPosition base58 known positions = some pos → own = some pos) ↔
      ∀ before p after, positions = before ++ p :: after → base58 p.pool ∉ known →
        own = some p ∨ ∃ q ∈ before, own = some q ∧ base58 q.pool ∉ known := by
  constructor
  · intro h before p after hlist hp
    -- the first unknown position is `p` or lies before it
    cases hfind : before.find? fun q => !known.contains (base58 q.pool) with
    | none =>
        have hknown : ∀ q ∈ before, base58 q.pool ∈ known := by simpa using hfind
        exact Or.inl (h p (findNewPosition_eq_some.mpr ⟨hp, before, after, hlist, hknown⟩))
    | some q =>
        obtain ⟨hq, front, back, rfl, hfront⟩ := List.find?_eq_some_iff_append.mp hfind
        have hq' : base58 q.pool ∉ known := by simpa using hq
        have hfound : findNewPosition base58 known positions = some q := by
          refine findNewPosition_eq_some.mpr
            ⟨hq', front, back ++ p :: after, ?_, by simpa using hfront⟩
          simp [hlist]
        exact Or.inr ⟨q, by simp, h q hfound, hq'⟩
  · intro h pos hpos
    obtain ⟨hunknown, before, after, hlist, hbefore⟩ := findNewPosition_eq_some.mp hpos
    rcases h before pos after hlist hunknown with h | ⟨q, hq, -, hq'⟩
    · exact h
    · exact absurd (hbefore q hq) hq'

end Finding

/-! ### What every run keeps -/

/-- The keys a run hands out are apart, and the cycle looks for positions of migrated pools. -/
structure MigrationWorld.Tracked (w : MigrationWorld) : Prop where
  held : ∀ dbcPool pos, w.minted dbcPool = some pos → pos ∈ w.positions
  apart : ∀ dbcPool dbcPool' pos pos', w.minted dbcPool = some pos → w.minted dbcPool' = some pos' →
    dbcPool ≠ dbcPool' → pos.pool ≠ pos'.pool ∧ pos.position ≠ pos'.position
  positions : (w.positions.map (·.position)).Nodup
  landed : ∀ sig ∈ w.landed, sig < w.sent.length
  migrated : ∀ pool pools, w.keeper = .migrated pool pools → (w.minted pool).isSome = true
  finding : ∀ pool known pools, w.keeper = .finding pool known pools → (w.minted pool).isSome = true

section Tracked

variable {env : MigrateEnv} {w w' : MigrationWorld} {act : MigrateAct}

theorem MigrationWorld.Fresh.tracked (h : w.Fresh) : w.Tracked := by
  constructor
  · intro dbcPool pos hpos
    rw [h.minted] at hpos
    cases hpos
  · intro dbcPool _ pos _ hpos
    rw [h.minted] at hpos
    cases hpos
  · simp [h.positions]
  · simp [h.landed]
  · simp [h.keeper]
  · simp [h.keeper]

/-- A migration overwrites no other's position. -/
theorem minted_update {dbcPool : Pubkey} {pos p : RouterPosition} (hnew : w.minted dbcPool = none)
    (key : Pubkey) : Function.update w.minted dbcPool (some pos) key = some p ↔
      key = dbcPool ∧ p = pos ∨ w.minted key = some p := by
  by_cases hkey : key = dbcPool
  · subst hkey
    simp [hnew, eq_comm]
  · simp [hkey]

/-- Where the cycle goes without looking at a pool nothing is new. -/
theorem MigrationWorld.Tracked.goto {point : CyclePoint} (h : w.Tracked)
    (hmigrated : ∀ pool pools, point = .migrated pool pools → (w.minted pool).isSome = true)
    (hfinding : ∀ pool known pools, point = .finding pool known pools →
      (w.minted pool).isSome = true) :
    MigrationWorld.Tracked { w with keeper := point } :=
  ⟨h.held, h.apart, h.positions, h.landed, hmigrated, hfinding⟩

/-- A new position's key is nowhere among the others. -/
theorem positions_append {pos : RouterPosition} (h : w.Tracked)
    (hpos : ∀ p ∈ w.positions, p.position ≠ pos.position) :
    ((w.positions ++ [pos]).map (·.position)).Nodup := by
  rw [List.map_append, List.nodup_append]
  refine ⟨h.positions, by simp, ?_⟩
  intro a ha b hb
  obtain ⟨p, hp, rfl⟩ := List.mem_map.mp ha
  obtain rfl := List.mem_singleton.mp hb
  exact hpos p hp

theorem MigrationWorld.Tracked.migrate {dbcPool : Pubkey} {pos : RouterPosition} (h : w.Tracked)
    (hnew : w.minted dbcPool = none)
    (hpos : ∀ p ∈ w.positions, p.pool ≠ pos.pool ∧ p.position ≠ pos.position) :
    MigrationWorld.Tracked { w with minted := Function.update w.minted dbcPool (some pos)
                                    positions := w.positions ++ [pos] } := by
  have hsome : ∀ key, (w.minted key).isSome = true →
      (Function.update w.minted dbcPool (some pos) key).isSome = true := by
    intro key hkey
    obtain ⟨p, hp⟩ := Option.isSome_iff_exists.mp hkey
    rw [(minted_update hnew key).mpr (Or.inr hp)]
    rfl
  constructor
  · intro key p hp
    rcases (minted_update hnew key).mp hp with ⟨-, rfl⟩ | hp
    · simp
    · exact List.mem_append_left _ (h.held key p hp)
  · intro key key' p p' hp hp' hne
    rcases (minted_update hnew key).mp hp with ⟨rfl, rfl⟩ | hold
    · rcases (minted_update hnew key').mp hp' with ⟨rfl, -⟩ | hold'
      · exact absurd rfl hne
      · have hapart := hpos p' (h.held key' p' hold')
        exact ⟨hapart.1.symm, hapart.2.symm⟩
    · rcases (minted_update hnew key').mp hp' with ⟨rfl, rfl⟩ | hold'
      · exact hpos p (h.held key p hold)
      · exact h.apart key key' p p' hold hold' hne
  · exact positions_append h fun p hp => (hpos p hp).2
  · exact h.landed
  · intro pool pools hat
    exact hsome pool (h.migrated pool pools hat)
  · intro pool known pools hat
    exact hsome pool (h.finding pool known pools hat)

theorem MigrateStep.tracked (h : MigrateStep env w act w') (hw : w.Tracked) : w'.Tracked := by
  cases h with
  | router _ _ => exact ⟨hw.held, hw.apart, hw.positions, hw.landed, hw.migrated, hw.finding⟩
  | migrate hnew hpos => exact hw.migrate hnew hpos
  | gift hpos =>
      refine ⟨?_, hw.apart, positions_append hw hpos, hw.landed, hw.migrated, hw.finding⟩
      intro dbcPool pos hheld
      exact List.mem_append_left _ (hw.held dbcPool pos hheld)
  | ingest _ _ => exact ⟨hw.held, hw.apart, hw.positions, hw.landed, hw.migrated, hw.finding⟩
  | start _ _ => exact hw.goto nofun nofun
  | seen _ hmigrated =>
      refine hw.goto ?_ nofun
      intro pool pools hat
      cases hat
      exact hmigrated
  | leave _ => exact hw.goto nofun nofun
  | readKnown hat =>
      refine hw.goto nofun ?_
      intro pool known pools hpoint
      cases hpoint
      exact hw.migrated _ _ hat
  | listed _ _ => refine hw.goto ?_ ?_ <;> intros <;> split at * <;> contradiction
  | send _ _ =>
      refine ⟨hw.held, hw.apart, hw.positions, ?_, nofun, nofun⟩
      intro sig hsig
      have hlt := hw.landed sig hsig
      simp only [List.length_append]
      omega
  | land hsent _ _ _ =>
      refine ⟨hw.held, hw.apart, hw.positions, ?_, hw.migrated, hw.finding⟩
      intro sig hsig
      rcases List.mem_cons.mp hsig with rfl | hsig
      · exact (List.getElem?_eq_some_iff.mp hsent).choose
      · exact hw.landed sig hsig
  | confirm _ _ => exact hw.goto nofun nofun
  | mark _ => exact ⟨hw.held, hw.apart, hw.positions, hw.landed, nofun, nofun⟩
  | finish _ => exact hw.goto nofun nofun
  | crash => exact hw.goto nofun nofun

end Tracked

/-! ### Runs whose looks meet the pool's own position first -/

/-- What such runs keep: what is sent and what is recorded are pools' own positions. -/
structure MigrationWorld.Sound (w : MigrationWorld) : Prop where
  tracked : w.Tracked
  sending : ∀ tx sigs pools, w.keeper = .sending tx sigs pools → w.minted tx.dbcPool = some tx.pos
  sent : ∀ tx ∈ w.sent, w.minted tx.dbcPool = some tx.pos
  recorded : ∀ dbcPool m, w.router.migration dbcPool = some m →
    ∃ pos, w.minted dbcPool = some pos ∧ m.dammPool = pos.pool ∧ m.dammPosition = pos.position

section Sound

variable {env : MigrateEnv} {w w' : MigrationWorld} {act : MigrateAct}

theorem MigrationWorld.Fresh.sound (h : w.Fresh) : w.Sound := by
  refine ⟨h.tracked, ?_, ?_, ?_⟩
  · simp [h.keeper]
  · simp [h.sent]
  · intro dbcPool m hm
    simp [Router.migration, h.router.pools dbcPool] at hm

/-- What a record lands as. -/
theorem land_migration {keeper : Pubkey} {tx : RecordTx} {ps ps' : PoolState}
    (h : handleRecordMigration w.router.config w.router.key ps
      (recordAccounts keeper w tx) false = .ok ps') :
    ps'.migration = some { dammPool := tx.pos.pool, dammPosition := tx.pos.position
                           positionNftMint := tx.pos.nftMint } := by
  obtain ⟨position, hposition, -, hmigration⟩ := handleRecordMigration_ok h
  cases hposition
  exact hmigration

/-- Each step keeps it, if it is not a look that meets another pool's position first. -/
theorem MigrateStep.sound (h : MigrateStep env w act w') (hact : OwnFirst env w act)
    (hw : w.Sound) :
    w'.Sound := by
  have htracked := h.tracked hw.tracked
  cases h with
  | router h hrouter =>
      refine ⟨htracked, hw.sending, hw.sent, ?_⟩
      intro dbcPool m hm
      exact hw.recorded dbcPool m ((h.migration hrouter dbcPool).symm.trans hm)
  | migrate hnew hpos =>
      refine ⟨htracked, ?_, ?_, ?_⟩
      · intro tx sigs pools hat
        exact (minted_update hnew _).mpr (Or.inr (hw.sending tx sigs pools hat))
      · intro tx htx
        exact (minted_update hnew _).mpr (Or.inr (hw.sent tx htx))
      · intro dbcPool m hm
        obtain ⟨p, hp, hm⟩ := hw.recorded dbcPool m hm
        exact ⟨p, (minted_update hnew _).mpr (Or.inr hp), hm⟩
  | gift _ => exact ⟨htracked, hw.sending, hw.sent, hw.recorded⟩
  | ingest _ _ => exact ⟨htracked, hw.sending, hw.sent, hw.recorded⟩
  | start _ _ => exact ⟨htracked, nofun, hw.sent, hw.recorded⟩
  | seen _ _ => exact ⟨htracked, nofun, hw.sent, hw.recorded⟩
  | leave _ => exact ⟨htracked, nofun, hw.sent, hw.recorded⟩
  | readKnown _ => exact ⟨htracked, nofun, hw.sent, hw.recorded⟩
  | @listed pool known pools positions hat _ =>
      refine ⟨htracked, ?_, hw.sent, hw.recorded⟩
      intro tx sigs rest hpoint
      have hown := found_own_iff.mpr (hact pool known pools positions hat rfl)
      split at hpoint
      · cases hpoint
      · next pos hfound =>
          cases hpoint
          exact hown pos hfound
  | @send tx sigs pools hat _ =>
      have htx := hw.sending tx sigs pools hat
      refine ⟨htracked, ?_, ?_, hw.recorded⟩
      · intro tx' sigs' pools' hpoint
        cases hpoint
        exact htx
      · intro tx' htx'
        rcases List.mem_append.mp htx' with htx' | htx'
        · exact hw.sent tx' htx'
        · rw [List.mem_singleton.mp htx']
          exact htx
  | @land sig tx ps ps' hsent _ _ h =>
      refine ⟨htracked, hw.sending, hw.sent, ?_⟩
      intro dbcPool m hm
      rw [Router.migration_update] at hm
      by_cases hpool : dbcPool = tx.dbcPool
      · rw [if_pos hpool, land_migration h] at hm
        cases hm
        rw [hpool]
        exact ⟨tx.pos, hw.sent tx (List.mem_of_getElem? hsent), rfl, rfl⟩
      · rw [if_neg hpool] at hm
        exact hw.recorded dbcPool m hm
  | confirm _ _ => exact ⟨htracked, nofun, hw.sent, hw.recorded⟩
  | mark _ => exact ⟨htracked, nofun, hw.sent, hw.recorded⟩
  | finish _ => exact ⟨htracked, nofun, hw.sent, hw.recorded⟩
  | crash => exact ⟨htracked, nofun, hw.sent, hw.recorded⟩

theorem MigrationWorld.Sound.recordsOwn (h : w.Sound) : RecordsOwn w := by
  have hown : ∀ dbcPool ps, w.router.pools dbcPool = some ps → ps.migrated = true →
      ∃ pos, w.minted dbcPool = some pos ∧ ps.dammPool = pos.pool ∧
        ps.dammPosition = pos.position := by
    intro dbcPool ps hps hmigrated
    refine h.recorded dbcPool ⟨ps.dammPool, ps.dammPosition, ps.positionNftMint⟩ ?_
    simp [Router.migration, hps, PoolState.migration, hmigrated]
  refine ⟨hown, ?_⟩
  intro dbcPool dbcPool' ps ps' hps hps' hmigrated hmigrated' hne
  obtain ⟨pos, hpos, hpool, hposition⟩ := hown dbcPool ps hps hmigrated
  obtain ⟨pos', hpos', hpool', hposition'⟩ := hown dbcPool' ps' hps' hmigrated'
  rw [hpool, hposition, hpool', hposition']
  exact h.tracked.apart dbcPool dbcPool' pos pos' hpos hpos' hne

/-- With no other migration unknown to the database, the look meets the pool's own first. -/
theorem OwnFirst.of_alone {positions : List RouterPosition}
    (hpositions : positions.Perm w.positions)
    (h : ∀ pool known pools, w.keeper = .finding pool known pools →
      ∀ p ∈ w.positions, env.base58 p.pool ∉ known → w.minted pool = some p) :
    OwnFirst env w (.listed positions) := by
  intro pool known pools _ hat hlisted before p after hlist hp
  cases hlisted
  have hmem : p ∈ positions := by simp [hlist]
  exact Or.inl (h pool known pools hat p (hpositions.subset hmem) hp)

/-- A look that meets another position first, of a registered pool and by an authorised keeper, is
two steps from a wrong record. -/
theorem misrecorded {pool : Pubkey} {known : List String} {pools : List Pubkey}
    {positions : List RouterPosition} {ps : PoolState} (hw : w.Tracked)
    (hat : w.keeper = .finding pool known pools) (hpositions : positions.Perm w.positions)
    (hps : w.router.pools pool = some ps)
    (hkeeper : w.router.config.isAdminOrKeeper env.keeper = true)
    (hact : ¬ OwnFirst env w (.listed positions)) :
    ∃ w', MigrateRun env w [.listed positions, .send, .land w.sent.length] w' ∧
      ¬ RecordsOwn w' := by
  have hnot : ¬ ∀ pos, findNewPosition env.base58 known positions = some pos →
      w.minted pool = some pos := by
    intro hown
    refine hact ?_
    intro pool' known' pools' positions' hat' hlisted
    cases hlisted
    cases hat.symm.trans hat'
    exact found_own_iff.mp hown
  push Not at hnot
  obtain ⟨pos, hfound, hne⟩ := hnot
  obtain ⟨own, hown⟩ := Option.isSome_iff_exists.mp (hw.finding pool known pools hat)
  -- the position found is held under another key than the pool's own
  have hposition : pos.position ≠ own.position := by
    intro heq
    obtain ⟨-, before, after, hlist, -⟩ := findNewPosition_eq_some.mp hfound
    have hmem : pos ∈ w.positions := hpositions.subset (by simp [hlist])
    refine hne ?_
    rw [List.inj_on_of_nodup_map hw.positions hmem (hw.held pool own hown) heq]
    exact hown
  have h1 : MigrateStep env w (.listed positions)
      { w with keeper := .sending { dbcPool := pool, pos } [] pools } := by
    have h := @MigrateStep.listed env _ _ _ _ _ hat hpositions
    rw [hfound] at h
    exact h
  have h2 := @MigrateStep.send env { w with keeper := .sending { dbcPool := pool, pos } [] pools }
    _ _ _ rfl (by decide)
  have hsent : (w.sent ++ [{ dbcPool := pool, pos : RecordTx }])[w.sent.length]? =
      some { dbcPool := pool, pos } := by simp
  have hnew : w.sent.length ∉ w.landed := fun hmem => Nat.lt_irrefl _ (hw.landed _ hmem)
  have hdbc : some (w.minted pool).isSome = some true := by rw [hown]; rfl
  have haccepts := @handleRecordMigration_accepts w.router.config w.router.key ps
    (recordAccounts env.keeper w { dbcPool := pool, pos }) false
    { pool := pos.pool, nftMint := pos.nftMint } hkeeper hdbc rfl rfl rfl rfl rfl rfl
  have h3 := @MigrateStep.land env
    { w with sent := w.sent ++ [{ dbcPool := pool, pos }]
             keeper := .sending { dbcPool := pool, pos } [w.sent.length] pools }
    w.sent.length _ ps _ hsent hnew hps haccepts
  refine ⟨_, .cons h1 (.cons h2 (.single h3)), ?_⟩
  intro h
  obtain ⟨own', hown', -, hrecorded⟩ := h.own pool _ (Function.update_self ..) rfl
  obtain rfl := Option.some.inj (hown.symm.trans hown')
  exact hposition hrecorded

end Sound

/-- In every run from the first pool on, with migrations, records, other instructions, ingestions
and crashes in any order: if each look meets the pool's own position before any other the database
does not have, then no pool ever records another's DAMM pool or position. -/
theorem migrations_own {env : MigrateEnv} {w₀ w : MigrationWorld} {tr : List MigrateAct}
    (hfresh : w₀.Fresh)
    (hrun : Run (fun w act w' => MigrateStep env w act w' ∧ OwnFirst env w act) w₀ tr w) :
    RecordsOwn w := by
  have hsound : w.Sound :=
    hrun.invariant (fun _ _ _ hstep hw => hstep.1.sound hstep.2 hw) hfresh.sound
  exact hsound.recordsOwn

/-! ### A sample -/

namespace Sample

/-- The keeper with the admin's key, on an empty router. -/
def migrateEnv : MigrateEnv where
  base58 := base58
  ingest := Ingest.Sample.env
  keeper := FeeRouter.Sample.config.admin

def beforePools : MigrationWorld where
  router := FeeRouter.Sample.fresh
  minted := fun _ => none
  positions := []
  db := { Ingest.Sample.market 0 0 with pools := [] }
  keeper := .idle
  sent := []
  landed := []
  recorded := []

theorem beforePools_fresh : beforePools.Fresh where
  router := ⟨⟨none, Bytes32.fill 3, { holdersBps := 5000, buybackBps := 2500, protocolBps := 2500 },
    by decide +kernel⟩, fun _ => rfl⟩
  minted _ := rfl
  positions := rfl
  pools := rfl
  keeper := rfl
  sent := rfl
  landed := rfl
  recorded := rfl

def gold : Pubkey := Bytes32.fill 20

def silver : Pubkey := Bytes32.fill 30

/-- A coin's pool account and row, for its DBC pool and mint. -/
def account (baseMint : Pubkey) : PoolState := { FeeRouter.Sample.pool with baseMint }

def row (dbcPool baseMint : Pubkey) : PoolRecord where
  dbcPool := base58 dbcPool
  baseMint := base58 baseMint
  quoteMint := base58 (Bytes32.fill 7)
  commodity := "GLD"
  feeBps := 100
  creator := "payer"
  baseVault := some (base58 baseMint ++ base58 dbcPool)
  quoteVault := some (base58 (Bytes32.fill 7) ++ base58 dbcPool)
  dammPool := none
  dammBaseVault := none
  dammQuoteVault := none
  migratedAt := none
  registeredSig := some "registered"

def registration : EventTx where
  signature := "registered"
  blockTime := 1000
  feePayer := "payer"
  failed := false
  events := none
  registersPool := true

def registered (dbcPool baseMint : Pubkey) : IcemarketsEvent :=
  .poolRegistered (base58 dbcPool) (base58 baseMint) (base58 (Bytes32.fill 7))
    (base58 Pubkey.default) 100

/-- The position of a migration, all of its keys made from one byte. -/
def position (b : UInt8) : RouterPosition where
  nftMint := Bytes32.fill b
  nftAccount := Bytes32.fill (b + 1)
  position := Bytes32.fill (b + 2)
  pool := Bytes32.fill (b + 3)

def register (router : Router) (dbcPool baseMint : Pubkey) : Router :=
  { router with pools := Function.update router.pools dbcPool (some (account baseMint)) }

/-- Two pools are registered and stored. -/
def bothStored : MigrationWorld :=
  { beforePools with
    router := register (register FeeRouter.Sample.fresh gold (Bytes32.fill 21)) silver
      (Bytes32.fill 31)
    db := { Ingest.Sample.market 0 0 with
      pools := [row gold (Bytes32.fill 21), row silver (Bytes32.fill 31)] } }

theorem register_step {w : MigrationWorld} {dbcPool baseMint : Pubkey}
    (hconfig : w.router.config = FeeRouter.Sample.config) (hnew : w.router.pools dbcPool = none) :
    MigrateStep migrateEnv w (.router (.registered dbcPool))
      { w with router := register w.router dbcPool baseMint } := by
  have hwrite : writePoolState w.router.config baseMint (Bytes32.fill 7) 100 =
      .ok (account baseMint) := by
    rw [hconfig]
    rfl
  exact .router (.register hnew hwrite) nofun

theorem ingest_step {w : MigrationWorld} {dbcPool baseMint : Pubkey} {db : EventDb}
    (h : applyEvent migrateEnv.ingest registration (registered dbcPool baseMint) w.db = .ok db) :
    MigrateStep migrateEnv w (.ingest (registered dbcPool baseMint)) { w with db } :=
  .ingest nofun h

theorem bothStored_run : ∃ tr, Run (fun w act w' => MigrateStep migrateEnv w act w' ∧
    OwnFirst migrateEnv w act) beforePools tr bothStored := by
  have h1 := @register_step beforePools gold (Bytes32.fill 21) rfl rfl
  have h2 := @register_step
    { beforePools with router := register beforePools.router gold (Bytes32.fill 21) }
    silver (Bytes32.fill 31) rfl (by decide)
  have h3 := @ingest_step { beforePools with router := bothStored.router } gold (Bytes32.fill 21)
    { beforePools.db with pools := [row gold (Bytes32.fill 21)] } (by decide +kernel)
  have h4 := @ingest_step { beforePools with
      router := bothStored.router
      db := { beforePools.db with pools := [row gold (Bytes32.fill 21)] } }
    silver (Bytes32.fill 31) bothStored.db (by decide +kernel)
  exact ⟨_, .cons ⟨h1, .of_ne nofun⟩ (.cons ⟨h2, .of_ne nofun⟩ (.cons ⟨h3, .of_ne nofun⟩
    (.single ⟨h4, .of_ne nofun⟩)))⟩

/-- Then one migrates, and then the other. -/
def oneMigrated : MigrationWorld :=
  { bothStored with
    minted := Function.update bothStored.minted gold (some (position 40))
    positions := [position 40] }

def bothMigrated : MigrationWorld :=
  { oneMigrated with
    minted := Function.update oneMigrated.minted silver (some (position 50))
    positions := [position 40, position 50] }

theorem oneMigrated_step :
    MigrateStep migrateEnv bothStored (.migrate gold (position 40)) oneMigrated :=
  .migrate rfl (by intro p hp; cases hp)

theorem bothMigrated_step :
    MigrateStep migrateEnv oneMigrated (.migrate silver (position 50)) bothMigrated :=
  .migrate (by decide) (by decide)

/-- The cycle starts and comes to look for the first pool's position. -/
theorem finding_run {w : MigrationWorld} (hkeeper : w.keeper = .idle) (hdb : w.db = bothStored.db)
    (hminted : (w.minted gold).isSome = true) :
    Run (fun w act w' => MigrateStep migrateEnv w act w' ∧ OwnFirst migrateEnv w act) w
      [.start, .seen, .readKnown] { w with keeper := .finding gold [] [silver] } := by
  have hpools : ([gold, silver].map base58).Perm (listUnmigratedPools w.db) := by
    rw [hdb]
    decide +kernel
  have h1 := @MigrateStep.start migrateEnv w [gold, silver] hkeeper hpools
  have h2 := @MigrateStep.seen migrateEnv { w with keeper := .visiting [gold, silver] }
    gold [silver] rfl hminted
  have h3 := @MigrateStep.readKnown migrateEnv { w with keeper := .migrated gold [silver] }
    gold [silver] rfl
  have hknown : knownDammPools w.db = [] := by
    rw [hdb]
    decide +kernel
  simp only [hknown] at h3
  exact .cons ⟨h1, .of_ne nofun⟩ (.cons ⟨h2, .of_ne nofun⟩ (.single ⟨h3, .of_ne nofun⟩))

end Sample

open Sample in
/-- Two pools migrate before the cycle, the positions are listed the later one first, and the first
pool is recorded with the second one's. -/
theorem neighbour_recorded : ¬ ∀ (env : MigrateEnv) (w₀ w : MigrationWorld) (tr : List MigrateAct),
    w₀.Fresh → MigrateRun env w₀ tr w → RecordsOwn w := by
  intro h
  obtain ⟨tr, hstored⟩ := bothStored_run
  have hrun := (hstored.append (.cons ⟨oneMigrated_step, .of_ne nofun⟩
    (.single ⟨bothMigrated_step, .of_ne nofun⟩))).append
      (@finding_run bothMigrated rfl rfl (by decide))
  have hall : MigrateRun migrateEnv beforePools _ _ := hrun.simulate (f := id) (g := id)
    fun _ _ _ hstep => hstep.1
  have htracked := hall.invariant (fun _ _ _ hstep hw => hstep.tracked hw) beforePools_fresh.tracked
  have hact : ¬ OwnFirst migrateEnv { bothMigrated with keeper := .finding gold [] [silver] }
      (.listed [position 50, position 40]) := by
    intro hown
    rcases hown gold [] [silver] _ rfl rfl [] (position 50)
      [position 40] rfl (by simp) with hfirst | ⟨q, hq, -⟩
    · revert hfirst
      decide +kernel
    · cases hq
  obtain ⟨w', hlast, hwrong⟩ :=
    @misrecorded migrateEnv _ gold [] [silver] _ (account (Bytes32.fill 21))
    htracked rfl (.swap ..) (by decide +kernel) (by decide +kernel) hact
  exact hwrong (h _ _ _ _ beforePools_fresh (hall.append hlast))

open Sample in
/-- The cycle comes to the first pool before the second has migrated. -/
theorem migrations_own_sample :
    ∃ w : MigrationWorld, (w.router.pools gold).map (·.dammPool) = some (position 40).pool ∧
      RecordsOwn w := by
  obtain ⟨tr, hstored⟩ := bothStored_run
  have hrun := (hstored.append (.single ⟨oneMigrated_step, .of_ne nofun⟩)).append
    (@finding_run oneMigrated rfl rfl (by decide))
  have hact : OwnFirst migrateEnv { oneMigrated with keeper := .finding gold [] [silver] }
      (.listed [position 40]) := by
    refine .of_alone (.refl _) ?_
    intro pool known pools hat p hp _
    cases hat
    obtain rfl := List.mem_singleton.mp hp
    decide +kernel
  have h1 := @MigrateStep.listed migrateEnv { oneMigrated with keeper := .finding gold [] [silver] }
    gold [] [silver] [position 40] rfl (.refl _)
  have hfound : findNewPosition migrateEnv.base58 []
    [position 40] = some (position 40) := by decide +kernel
  simp only [hfound] at h1
  have h2 := @MigrateStep.send migrateEnv
    { oneMigrated with keeper := .sending { dbcPool := gold, pos := position 40 } [] [silver] }
    _ _ _ rfl (by decide)
  have h3 := @MigrateStep.land migrateEnv
    { oneMigrated with sent := [{ dbcPool := gold, pos := position 40 }]
                       keeper := .sending { dbcPool := gold, pos := position 40 } [0] [silver] }
    0 { dbcPool := gold, pos := position 40 } (account (Bytes32.fill 21)) _ rfl (by decide)
    (by decide +kernel) (handleRecordMigration_accepts (by decide +kernel) (by decide +kernel)
      rfl rfl rfl rfl rfl rfl)
  have hall := hrun.append (.cons ⟨h1, hact⟩
    (.cons ⟨h2, .of_ne nofun⟩ (.single ⟨h3, .of_ne nofun⟩)))
  exact ⟨_, by decide +kernel, migrations_own beforePools_fresh hall⟩

end IceMarkets.Keeper
