import IceMarkets.FeeRouter.Claim
import IceMarkets.RawAccount

/-!
# IceMarkets.FeeRouter.Layout

The accounts of other programs that `fee_router` reads as bytes (`constants.rs`,
`register_pool.rs`, `record_migration.rs`): DBC's `PoolConfig` and `VirtualPool`, DAMM v2's
`Pool` and `Position`, and peg_desk's `Commodity`.

Each has a structure, its encoding and the checks of the handler. A permissionless
registration is accepted exactly for the encodings of accounts that fit together
(`validatePermissionless_eq_ok`).
-/

namespace IceMarkets.FeeRouter

open Layout

/-! ### Codes -/

/-- `RouterError`, with the codes that claims and splits never raise. -/
inductive RouterCode
  | shared (e : RouterError)
  | feeClaimerMismatch
  | quoteMintMismatch
  | baseMintMismatch
  | configMismatch
  | invalidCommodity
  | invalidAuthority
  | insufficientVault
  | zeroAmount
  deriving DecidableEq, Repr

abbrev ProgramResult (α : Type) := Result RouterCode α

/-- A handler that raises only the shared codes. -/
def liftRouter {α : Type} (x : RouterResult α) : ProgramResult α :=
  match x with
  | .ok a => .ok a
  | .error (.custom e) => .error (.custom (.shared e))
  | .error (.anchor e) => .error (.anchor e)
  | .error (.token e) => .error (.token e)

theorem liftRouter_eq_ok {α : Type} {x : RouterResult α} {a : α} :
    liftRouter x = .ok a ↔ x = .ok a := by
  cases x with
  | ok b => exact ⟨fun h => congrArg _ (Except.ok.inj h), fun h => congrArg _ (Except.ok.inj h)⟩
  | error e => cases e <;> exact ⟨nofun, nofun⟩

/-! ### Constants -/

/-- `DBC_PROGRAM_ID`. -/
def dbcProgramId : Pubkey :=
  ⟨[9, 96, 12, 165, 36, 247, 177, 183, 214, 204, 177, 195, 151, 58, 160, 51, 13, 25, 3, 218, 96,
    28, 201, 181, 222, 227, 198, 98, 180, 202, 209, 73], rfl⟩

/-- `DAMM_V2_PROGRAM_ID`. -/
def dammV2ProgramId : Pubkey :=
  ⟨[9, 45, 33, 53, 101, 122, 21, 156, 43, 135, 212, 182, 106, 112, 219, 142, 151, 82, 56, 159, 247,
    106, 175, 32, 108, 237, 6, 58, 56, 249, 90, 237], rfl⟩

/-- `dbc_layout::POOL_CONFIG_DISCRIMINATOR`. -/
def poolConfigDiscriminator : List UInt8 := [26, 108, 14, 123, 116, 230, 129, 43]

/-- `dbc_layout::VIRTUAL_POOL_DISCRIMINATOR`. -/
def virtualPoolDiscriminator : List UInt8 := [213, 224, 5, 209, 98, 69, 119, 92]

/-- `damm_layout::POOL_DISCRIMINATOR`. -/
def dammPoolDiscriminator : List UInt8 := [241, 154, 109, 4, 17, 177, 109, 188]

/-- `damm_layout::POSITION_DISCRIMINATOR`. -/
def positionDiscriminator : List UInt8 := [170, 188, 143, 228, 122, 64, 247, 208]

def configQuoteMintOffset : Nat := 8

def configFeeClaimerOffset : Nat := 40

def configMinLen : Nat := 72

def poolConfigOffset : Nat := 72

def poolCreatorOffset : Nat := 104

def poolBaseMintOffset : Nat := 136

def poolIsMigratedOffset : Nat := 305

def poolMinLen : Nat := 306

def positionPoolOffset : Nat := 8

def positionNftMintOffset : Nat := 40

def positionMinLen : Nat := 72

def commodityCoinMintOffset : Nat := 8 + 12

def commodityMinLen : Nat := commodityCoinMintOffset + 32

/-! ### Accounts -/

/-- DBC's `PoolConfig`. -/
structure PoolConfig where
  quoteMint : Pubkey
  feeClaimer : Pubkey
  rest : List UInt8

def PoolConfig.bytes (c : PoolConfig) : List UInt8 :=
  poolConfigDiscriminator ++ c.quoteMint.bytes ++ c.feeClaimer.bytes ++ c.rest

/-- DBC's `VirtualPool`. -/
structure VirtualPool where
  volatilityTracker : List UInt8
  config : Pubkey
  creator : Pubkey
  baseMint : Pubkey
  /-- The vaults, the reserves, the fees, the price, the activation point and the type. -/
  trading : List UInt8
  isMigrated : UInt8
  rest : List UInt8
  volatilityTracker_length : volatilityTracker.length = 64
  trading_length : trading.length = 137

def VirtualPool.bytes (p : VirtualPool) : List UInt8 :=
  virtualPoolDiscriminator ++ p.volatilityTracker ++ p.config.bytes ++ p.creator.bytes ++
    p.baseMint.bytes ++ p.trading ++ [p.isMigrated] ++ p.rest

/-- DAMM v2's `Position`. -/
structure Position where
  pool : Pubkey
  nftMint : Pubkey
  rest : List UInt8

def Position.bytes (p : Position) : List UInt8 :=
  positionDiscriminator ++ p.pool.bytes ++ p.nftMint.bytes ++ p.rest

/-- peg_desk's `Commodity`; its discriminator is not looked at. -/
structure CommodityAccount where
  /-- The discriminator and the symbol. -/
  head : List UInt8
  coinMint : Pubkey
  rest : List UInt8
  head_length : head.length = commodityCoinMintOffset

def CommodityAccount.bytes (c : CommodityAccount) : List UInt8 :=
  c.head ++ c.coinMint.bytes ++ c.rest

/-! ### Encodings -/

section Decode

variable {data : List UInt8}

/-- 32 bytes of an account are a key. -/
theorem exists_pubkeyAt (data : List UInt8) (offset : Nat) (h : offset + 32 ≤ data.length) :
    ∃ key, pubkeyAt data offset = some key := ⟨_, dif_pos h⟩

/-- The fields of a `PoolConfig` stand at the documented offsets. -/
theorem PoolConfig.at_bytes (c : PoolConfig) :
    (At c.bytes 0 poolConfigDiscriminator ∧ At c.bytes configQuoteMintOffset c.quoteMint.bytes) ∧
      At c.bytes configFeeClaimerOffset c.feeClaimer.bytes := by
  have h := at_zero_iff.mpr ⟨c.rest, (rfl : c.bytes = _)⟩
  simp only [at_append_iff, List.length_append, Bytes32.length_eq] at h
  exact h

/-- The length and the discriminator make a `PoolConfig`. -/
theorem exists_poolConfig_iff : (∃ c : PoolConfig, data = c.bytes) ↔
    configMinLen ≤ data.length ∧ data.take 8 = poolConfigDiscriminator := by
  rw [take_eq_iff (n := 8) rfl]
  constructor
  · intro hx
    obtain ⟨c, rfl⟩ := hx
    obtain ⟨⟨hdisc, -⟩, hclaimer⟩ := c.at_bytes
    have hlen := hclaimer.length_le
    rw [Bytes32.length_eq] at hlen
    exact ⟨hlen, hdisc⟩
  · intro hx
    obtain ⟨hlen, hdisc⟩ := hx
    unfold configMinLen at hlen
    obtain ⟨quoteMint, hquote⟩ := exists_pubkeyAt data 8 (by omega)
    obtain ⟨feeClaimer, hclaimer⟩ := exists_pubkeyAt data 40 hlen
    have hall : At data 0 (poolConfigDiscriminator ++ quoteMint.bytes ++ feeClaimer.bytes) := by
      simp only [at_append_iff, List.length_append, Bytes32.length_eq]
      exact ⟨⟨hdisc, pubkeyAt_eq_some.mp hquote⟩, pubkeyAt_eq_some.mp hclaimer⟩
    obtain ⟨rest, hrest⟩ := at_zero_iff.mp hall
    exact ⟨{ quoteMint, feeClaimer, rest }, hrest⟩

@[simp] theorem PoolConfig.pubkeyAt_quoteMint (c : PoolConfig) :
    pubkeyAt c.bytes configQuoteMintOffset = some c.quoteMint :=
  pubkeyAt_eq_some.mpr c.at_bytes.1.2

@[simp] theorem PoolConfig.pubkeyAt_feeClaimer (c : PoolConfig) :
    pubkeyAt c.bytes configFeeClaimerOffset = some c.feeClaimer :=
  pubkeyAt_eq_some.mpr c.at_bytes.2

/-- The fields of a `VirtualPool` stand at the documented offsets. -/
theorem VirtualPool.at_bytes (p : VirtualPool) :
    (((((At p.bytes 0 virtualPoolDiscriminator ∧ At p.bytes 8 p.volatilityTracker) ∧
      At p.bytes poolConfigOffset p.config.bytes) ∧ At p.bytes poolCreatorOffset p.creator.bytes) ∧
      At p.bytes poolBaseMintOffset p.baseMint.bytes) ∧ At p.bytes 168 p.trading) ∧
      At p.bytes poolIsMigratedOffset [p.isMigrated] := by
  have h := at_zero_iff.mpr ⟨p.rest, (rfl : p.bytes = _)⟩
  simp only [at_append_iff, List.length_append, Bytes32.length_eq, p.volatilityTracker_length,
    p.trading_length] at h
  exact h

/-- The length and the discriminator make a `VirtualPool`. -/
theorem exists_virtualPool_iff : (∃ p : VirtualPool, data = p.bytes) ↔
    poolMinLen ≤ data.length ∧ data.take 8 = virtualPoolDiscriminator := by
  rw [take_eq_iff (n := 8) rfl]
  constructor
  · intro hx
    obtain ⟨p, rfl⟩ := hx
    obtain ⟨⟨⟨⟨⟨⟨hdisc, -⟩, -⟩, -⟩, -⟩, -⟩, hmigrated⟩ := p.at_bytes
    exact ⟨hmigrated.length_le, hdisc⟩
  · intro hx
    obtain ⟨hlen, hdisc⟩ := hx
    unfold poolMinLen at hlen
    obtain ⟨config, hconfig⟩ := exists_pubkeyAt data 72 (by omega)
    obtain ⟨creator, hcreator⟩ := exists_pubkeyAt data 104 (by omega)
    obtain ⟨baseMint, hbase⟩ := exists_pubkeyAt data 136 (by omega)
    -- what stands between the fields that are read
    obtain ⟨volatilityTracker, htracker, hat⟩ := exists_gap data 8 64
      (by omega)
    obtain ⟨trading, htrading, hat'⟩ := exists_gap data 168 137
      (by omega)
    obtain ⟨migrated, hmigrated, hat''⟩ := exists_gap data 305 1 hlen
    obtain ⟨isMigrated, rfl⟩ := List.length_eq_one_iff.mp hmigrated
    have hall : At data 0 (virtualPoolDiscriminator ++ volatilityTracker ++ config.bytes ++
        creator.bytes ++ baseMint.bytes ++ trading ++ [isMigrated]) := by
      simp only [at_append_iff, List.length_append, Bytes32.length_eq, htracker, htrading]
      exact ⟨⟨⟨⟨⟨⟨hdisc, hat⟩, pubkeyAt_eq_some.mp hconfig⟩, pubkeyAt_eq_some.mp hcreator⟩,
        pubkeyAt_eq_some.mp hbase⟩, hat'⟩, hat''⟩
    obtain ⟨rest, hrest⟩ := at_zero_iff.mp hall
    exact ⟨{
      volatilityTracker, config, creator, baseMint, trading, isMigrated, rest
      volatilityTracker_length := htracker
      trading_length := htrading }, hrest⟩

@[simp] theorem VirtualPool.pubkeyAt_config (p : VirtualPool) :
    pubkeyAt p.bytes poolConfigOffset = some p.config :=
  pubkeyAt_eq_some.mpr p.at_bytes.1.1.1.1.2

@[simp] theorem VirtualPool.pubkeyAt_creator (p : VirtualPool) :
    pubkeyAt p.bytes poolCreatorOffset = some p.creator :=
  pubkeyAt_eq_some.mpr p.at_bytes.1.1.1.2

@[simp] theorem VirtualPool.pubkeyAt_baseMint (p : VirtualPool) :
    pubkeyAt p.bytes poolBaseMintOffset = some p.baseMint :=
  pubkeyAt_eq_some.mpr p.at_bytes.1.1.2

@[simp] theorem VirtualPool.getElem?_isMigrated (p : VirtualPool) :
    p.bytes[poolIsMigratedOffset]? = some p.isMigrated :=
  getElem?_eq_some_iff.mpr p.at_bytes.2

/-- The fields of a `Position` stand at the documented offsets. -/
theorem Position.at_bytes (p : Position) :
    (At p.bytes 0 positionDiscriminator ∧ At p.bytes positionPoolOffset p.pool.bytes) ∧
      At p.bytes positionNftMintOffset p.nftMint.bytes := by
  have h := at_zero_iff.mpr ⟨p.rest, (rfl : p.bytes = _)⟩
  simp only [at_append_iff, List.length_append, Bytes32.length_eq] at h
  exact h

/-- The length and the discriminator make a `Position`. -/
theorem exists_position_iff : (∃ p : Position, data = p.bytes) ↔
    positionMinLen ≤ data.length ∧ data.take 8 = positionDiscriminator := by
  rw [take_eq_iff (n := 8) rfl]
  constructor
  · intro hx
    obtain ⟨p, rfl⟩ := hx
    obtain ⟨⟨hdisc, -⟩, hnft⟩ := p.at_bytes
    have hlen := hnft.length_le
    rw [Bytes32.length_eq] at hlen
    exact ⟨hlen, hdisc⟩
  · intro hx
    obtain ⟨hlen, hdisc⟩ := hx
    unfold positionMinLen at hlen
    obtain ⟨pool, hpool⟩ := exists_pubkeyAt data 8 (by omega)
    obtain ⟨nftMint, hnft⟩ := exists_pubkeyAt data 40 hlen
    have hall : At data 0 (positionDiscriminator ++ pool.bytes ++ nftMint.bytes) := by
      simp only [at_append_iff, List.length_append, Bytes32.length_eq]
      exact ⟨⟨hdisc, pubkeyAt_eq_some.mp hpool⟩, pubkeyAt_eq_some.mp hnft⟩
    obtain ⟨rest, hrest⟩ := at_zero_iff.mp hall
    exact ⟨{ pool, nftMint, rest }, hrest⟩

@[simp] theorem Position.pubkeyAt_pool (p : Position) :
    pubkeyAt p.bytes positionPoolOffset = some p.pool :=
  pubkeyAt_eq_some.mpr p.at_bytes.1.2

@[simp] theorem Position.pubkeyAt_nftMint (p : Position) :
    pubkeyAt p.bytes positionNftMintOffset = some p.nftMint :=
  pubkeyAt_eq_some.mpr p.at_bytes.2

/-- The length makes a `Commodity`. -/
theorem exists_commodityAccount_iff : (∃ c : CommodityAccount, data = c.bytes) ↔
    commodityMinLen ≤ data.length := by
  constructor
  · intro hx
    obtain ⟨c, rfl⟩ := hx
    simp only [CommodityAccount.bytes, List.length_append, c.head_length, Bytes32.length_eq,
      commodityMinLen]
    omega
  · intro hlen
    obtain ⟨coinMint, hcoin⟩ := exists_pubkeyAt data commodityCoinMintOffset
      hlen
    obtain ⟨head, rest, hhead, hdata⟩ := pubkeyAt_eq_some.mp hcoin
    exact ⟨{ head, coinMint, rest, head_length := hhead }, hdata⟩

@[simp] theorem CommodityAccount.pubkeyAt_coinMint (c : CommodityAccount) :
    pubkeyAt c.bytes commodityCoinMintOffset = some c.coinMint :=
  pubkeyAt_eq_some.mpr ⟨c.head, c.rest, c.head_length, rfl⟩

end Decode

/-! ### Registration -/

/-- What `register_pool` and `register_pool_admin` are given. -/
structure RegisterAccounts where
  payer : Pubkey
  dbcPool : RawAccount
  dbcConfig : RawAccount
  commodity : RawAccount
  baseMint : Pubkey
  quoteMint : Pubkey
  deriving DecidableEq, Repr

def readPubkey (data : List UInt8) (offset : Nat) : ProgramResult Pubkey :=
  okOr (pubkeyAt data offset) (.shared .invalidDbcAccount)

/-- Validates the DBC config and pool bytes and the commodity; returns the pool's creator. -/
def validatePermissionless (router pegDeskProgram : Pubkey) (a : RegisterAccounts) :
    ProgramResult Pubkey := do
  require (configMinLen ≤ a.dbcConfig.data.length ∧
    a.dbcConfig.data.take 8 = poolConfigDiscriminator) (.shared .invalidDbcAccount)
  let feeClaimer ← readPubkey a.dbcConfig.data configFeeClaimerOffset
  require (feeClaimer = router) .feeClaimerMismatch
  let cfgQuote ← readPubkey a.dbcConfig.data configQuoteMintOffset
  require (cfgQuote = a.quoteMint) .quoteMintMismatch
  require (poolMinLen ≤ a.dbcPool.data.length ∧
    a.dbcPool.data.take 8 = virtualPoolDiscriminator) (.shared .invalidDbcAccount)
  let poolCfg ← readPubkey a.dbcPool.data poolConfigOffset
  require (poolCfg = a.dbcConfig.key) .configMismatch
  let poolBase ← readPubkey a.dbcPool.data poolBaseMintOffset
  require (poolBase = a.baseMint) .baseMintMismatch
  let creator ← readPubkey a.dbcPool.data poolCreatorOffset
  require (pegDeskProgram ≠ Pubkey.default ∧ a.commodity.owner = pegDeskProgram) .invalidCommodity
  require (commodityMinLen ≤ a.commodity.data.length) .invalidCommodity
  let coinMint ← readPubkey a.commodity.data commodityCoinMintOffset
  require (coinMint = a.quoteMint) .invalidCommodity
  .ok creator

/-- The accounts of a permissionless registration fit together: a config whose fees go to the
router in the coin, a pool of that config and of the base mint, and a commodity of peg_desk
with that coin. -/
structure Matches (router pegDeskProgram : Pubkey) (a : RegisterAccounts) (c : PoolConfig)
    (p : VirtualPool) (m : CommodityAccount) : Prop where
  dbcConfig : a.dbcConfig.data = c.bytes
  dbcPool : a.dbcPool.data = p.bytes
  commodity : a.commodity.data = m.bytes
  feeClaimer : c.feeClaimer = router
  quoteMint : c.quoteMint = a.quoteMint
  config : p.config = a.dbcConfig.key
  baseMint : p.baseMint = a.baseMint
  pegDesk : pegDeskProgram ≠ Pubkey.default ∧ a.commodity.owner = pegDeskProgram
  coinMint : m.coinMint = a.quoteMint

/-- Exactly the encodings of matching accounts are accepted, with the pool's creator. -/
theorem validatePermissionless_eq_ok {router pegDeskProgram creator : Pubkey}
    {a : RegisterAccounts} :
    validatePermissionless router pegDeskProgram a = .ok creator ↔
      ∃ c p m, Matches router pegDeskProgram a c p m ∧ p.creator = creator := by
  unfold validatePermissionless readPubkey
  simp only [require_bind_eq_ok, okOr_bind_eq_ok]
  constructor
  · intro h
    obtain ⟨hconfig, _, hclaimer, rfl, _, hquote, rfl, hpool, _, hcfg, rfl, _, hbase, rfl, _,
      hcreator, hpeg, hlen, _, hcoin, rfl, h⟩ := h
    cases h
    obtain ⟨c, hc⟩ := exists_poolConfig_iff.mpr hconfig
    obtain ⟨p, hp⟩ := exists_virtualPool_iff.mpr hpool
    obtain ⟨m, hm⟩ := exists_commodityAccount_iff.mpr hlen
    rw [hc, PoolConfig.pubkeyAt_feeClaimer] at hclaimer
    rw [hc, PoolConfig.pubkeyAt_quoteMint] at hquote
    rw [hp, VirtualPool.pubkeyAt_config] at hcfg
    rw [hp, VirtualPool.pubkeyAt_baseMint] at hbase
    rw [hp, VirtualPool.pubkeyAt_creator] at hcreator
    rw [hm, CommodityAccount.pubkeyAt_coinMint] at hcoin
    exact ⟨c, p, m, {
      dbcConfig := hc
      dbcPool := hp
      commodity := hm
      feeClaimer := Option.some.inj hclaimer
      quoteMint := Option.some.inj hquote
      config := Option.some.inj hcfg
      baseMint := Option.some.inj hbase
      pegDesk := hpeg
      coinMint := Option.some.inj hcoin }, Option.some.inj hcreator⟩
  · intro hx
    obtain ⟨c, p, m, h, rfl⟩ := hx
    have hconfig := exists_poolConfig_iff.mp ⟨c, h.dbcConfig⟩
    have hpool := exists_virtualPool_iff.mp ⟨p, h.dbcPool⟩
    have hlen := exists_commodityAccount_iff.mp ⟨m, h.commodity⟩
    refine ⟨hconfig, _, ?_, h.feeClaimer, _, ?_, h.quoteMint, hpool, _, ?_, h.config, _, ?_,
      h.baseMint, _, ?_, h.pegDesk, hlen, _, ?_, h.coinMint, rfl⟩
    · rw [h.dbcConfig, PoolConfig.pubkeyAt_feeClaimer]
    · rw [h.dbcConfig, PoolConfig.pubkeyAt_quoteMint]
    · rw [h.dbcPool, VirtualPool.pubkeyAt_config]
    · rw [h.dbcPool, VirtualPool.pubkeyAt_baseMint]
    · rw [h.dbcPool, VirtualPool.pubkeyAt_creator]
    · rw [h.commodity, CommodityAccount.pubkeyAt_coinMint]

/-! ### Migration -/

/-- What `record_migration` is given. -/
structure MigrationInput where
  authority : Pubkey
  dbcPool : RawAccount
  dammPool : RawAccount
  dammPosition : RawAccount
  positionNft : TokenAccount
  deriving DecidableEq, Repr

/-- The pool's `is_migrated`, where the account is a `VirtualPool`. -/
def readIsMigrated (data : List UInt8) : Option Bool :=
  if poolMinLen ≤ data.length ∧ data.take 8 = virtualPoolDiscriminator then
    (data[poolIsMigratedOffset]?).map (· ≠ 0)
  else none

/-- The pool and the NFT mint of a `Position`. -/
def readPosition (data : List UInt8) : Option DammPosition :=
  if positionMinLen ≤ data.length ∧ data.take 8 = positionDiscriminator then do
    let pool ← pubkeyAt data positionPoolOffset
    let nftMint ← pubkeyAt data positionNftMintOffset
    some { pool, nftMint }
  else none

/-- What the handler reads of its accounts. -/
def MigrationInput.accounts (x : MigrationInput) : MigrationAccounts where
  authority := x.authority
  dbcPool := readIsMigrated x.dbcPool.data
  dammPool := x.dammPool.key
  dammPoolValid := decide (8 ≤ x.dammPool.data.length ∧
    x.dammPool.data.take 8 = dammPoolDiscriminator)
  dammPosition := x.dammPosition.key
  position := readPosition x.dammPosition.data
  positionNft := x.positionNft

section Decode

variable {data : List UInt8}

theorem readIsMigrated_eq_some {migrated : Bool} :
    readIsMigrated data = some migrated ↔
      ∃ p : VirtualPool, data = p.bytes ∧ decide (p.isMigrated ≠ 0) = migrated := by
  unfold readIsMigrated
  constructor
  · intro h
    split_ifs at h with hc
    obtain ⟨p, rfl⟩ := exists_virtualPool_iff.mpr hc
    rw [VirtualPool.getElem?_isMigrated] at h
    exact ⟨p, rfl, Option.some.inj h⟩
  · intro hx
    obtain ⟨p, rfl, rfl⟩ := hx
    rw [if_pos (exists_virtualPool_iff.mp ⟨p, rfl⟩), VirtualPool.getElem?_isMigrated]
    rfl

theorem readPosition_eq_some {position : DammPosition} :
    readPosition data = some position ↔
      ∃ p : Position, data = p.bytes ∧ position = { pool := p.pool, nftMint := p.nftMint } := by
  unfold readPosition
  constructor
  · intro h
    split_ifs at h with hc
    obtain ⟨p, rfl⟩ := exists_position_iff.mpr hc
    rw [Position.pubkeyAt_pool, Position.pubkeyAt_nftMint] at h
    exact ⟨p, rfl, (Option.some.inj h).symm⟩
  · intro hx
    obtain ⟨p, rfl, rfl⟩ := hx
    rw [if_pos (exists_position_iff.mp ⟨p, rfl⟩), Position.pubkeyAt_pool,
      Position.pubkeyAt_nftMint]
    rfl

end Decode

end IceMarkets.FeeRouter
