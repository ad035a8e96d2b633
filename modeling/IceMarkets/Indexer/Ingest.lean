import IceMarkets.Indexer.Events
import IceMarkets.Indexer.Swaps
import IceMarkets.Lib.KeyedTable
import Mathlib.Data.List.Sort

/-!
# IceMarkets.Indexer.Ingest

The events of a transaction written to Postgres (`decode/ingest.ts`): `applyEvent` and the
part of `ingestTransaction` around it, `reconcilePools`, and the tables they read and write
(`schema.sql`).

Token amounts are in base units and prices at 1e8, exact as the `numeric` columns are.
Columns that no write here reads are left out: a commodity's registry texts, a pool's
ticker, name and image, and when a row was created.

A statement that breaks a unique column fails, and with it the transaction's ingestion,
which runs inside a savepoint.
-/

namespace IceMarkets.Indexer.Ingest

open KeyedTable

/-! ### Tables -/

/-- A row of `commodities`. -/
structure CommodityRow where
  symbol : String
  mint : String
  commodityPubkey : Option String
  oracleKind : Option Int
  status : String
  supplyOutstanding : Int
  reserveBalance : Int
  lastPriceUsd : Option Int
  lastPublishTime : Option Int
  deriving DecidableEq, Repr

/-- A row of `pools`. -/
structure PoolRecord extends PoolRow where
  commodity : String
  feeBps : Int
  creator : String
  migratedAt : Option Int
  registeredSig : Option String
  deriving DecidableEq, Repr

/-- A row of `commodity_trades`. -/
structure CommodityTrade where
  sig : String
  commodity : String
  ts : Int
  side : Int
  usdc : Int
  coin : Int
  price : Int
  spreadBps : Int
  trader : String
  deriving DecidableEq, Repr

/-- `primary key (sig, commodity, trader, side)`. -/
def CommodityTrade.key (r : CommodityTrade) : String × String × String × Int :=
  (r.sig, r.commodity, r.trader, r.side)

/-- A row of `prices`. -/
structure PriceRow where
  commodity : String
  ts : Int
  price : Int
  conf : Int
  source : String
  deriving DecidableEq, Repr

/-- `unique (commodity, ts, source)`. -/
def PriceRow.key (r : PriceRow) : String × Int × String := (r.commodity, r.ts, r.source)

/-- A row of `fee_claims`. -/
structure FeeClaim where
  pool : String
  source : Int
  quoteAmount : Int
  baseAmount : Int
  sig : String
  deriving DecidableEq, Repr

/-- `unique (sig, pool, source)`. -/
def FeeClaim.key (r : FeeClaim) : String × String × Int := (r.sig, r.pool, r.source)

/-- A row of `fee_splits`. -/
structure FeeSplit where
  sig : String
  pool : String
  holders : Int
  buyback : Int
  protocol : Int
  deriving DecidableEq, Repr

/-- `primary key (sig, pool)`. -/
def FeeSplit.key (r : FeeSplit) : String × String := (r.sig, r.pool)

/-- A row of `buybacks`; `gld_amount` is reused for the USDC out. -/
structure BuybackRow where
  coinMint : String
  coinAmount : Int
  gldAmount : Int
  iceBurned : Int
  sig : String
  deriving DecidableEq, Repr

/-- `unique (sig)`. -/
def BuybackRow.key (r : BuybackRow) : String := r.sig

/-- A row of `epochs`. -/
structure EpochRow where
  pool : String
  index : Int
  coinMint : String
  startTs : Int
  endTs : Int
  totalAmount : Int
  pushedAmount : Int
  claimedAmount : Int
  merkleRoot : Option String
  eligibleHolders : Int
  finalized : Bool
  epochPubkey : Option String
  deriving DecidableEq, Repr

/-- A row of `payouts`. -/
structure PayoutRow where
  pool : String
  epoch : Int
  wallet : String
  coinMint : String
  amount : Int
  kind : Int
  sig : String
  deriving DecidableEq, Repr

/-- `unique (pool, epoch, wallet, kind)`. -/
def PayoutRow.key (r : PayoutRow) : String × Int × String × Int :=
  (r.pool, r.epoch, r.wallet, r.kind)

/-- A row of `merkle_leaves`, without its amount and proof. -/
structure MerkleLeafRow where
  pool : String
  epochIndex : Int
  epochPubkey : String
  wallet : String
  claimed : Bool
  deriving DecidableEq, Repr

structure EventDb where
  commodities : List CommodityRow
  pools : List PoolRecord
  commodityTrades : List CommodityTrade
  prices : List PriceRow
  feeClaims : List FeeClaim
  feeSplits : List FeeSplit
  buybacks : List BuybackRow
  epochs : List EpochRow
  payouts : List PayoutRow
  merkleLeaves : List MerkleLeafRow
  deriving DecidableEq, Repr

/-- What the writes take from outside the database. -/
structure IngestEnv where
  vaults : TokenVaults
  epochPda : (pool : String) → (index : Nat) → String
  /-- `bySymbol`: the oracle kind the registry has for a symbol. -/
  registry : String → Option Int

/-- A transaction as the webhook and the backfill hand it over, with the events its logs were
decoded to; none where its source had no logs. -/
structure EventTx where
  signature : String
  blockTime : Int
  feePayer : String
  failed : Bool
  events : Option (List IcemarketsEvent)
  /-- The logs show the fee router's `RegisterPool`. -/
  registersPool : Bool
  deriving DecidableEq, Repr

/-! ### Lookups -/

namespace EventDb

variable (db : EventDb)

def symbolForCommodity (commodityPubkey : String) : Option CommodityRow :=
  db.commodities.find? (·.commodityPubkey = some commodityPubkey)

def poolExists (dbcPool : String) : Option PoolRecord := db.pools.find? (·.dbcPool = dbcPool)

/-- Epoch PDA to index: from `epochs`, from `merkle_leaves`, else by deriving those of the known
range. -/
def epochIndexFor (env : IngestEnv) (pool epochPubkey : String) : Option Int :=
  match db.epochs.find? (·.epochPubkey = some epochPubkey) with
  | some e => some e.index
  | none =>
      match db.merkleLeaves.find? (·.epochPubkey = epochPubkey) with
      | some l => some l.epochIndex
      | none =>
          let max := ((db.epochs.filter (·.pool = pool)).map (·.index)).foldl max 0
          let upper := min 1024 (max + 2)
          ((List.range (upper + 1).toNat).find? (env.epochPda pool · = epochPubkey)).map (↑)

/-- `update commodities … where symbol = $1`. -/
def updateCommodity (symbol : String) (f : CommodityRow → CommodityRow) : EventDb :=
  { db with commodities := db.commodities.map fun c => if c.symbol = symbol then f c else c }

/-- `update epochs … where pool = $1 and index = $2`. -/
def updateEpoch (pool : String) (index : Int) (f : EpochRow → EpochRow) : EventDb :=
  { db with epochs := db.epochs.map fun e => if e.pool = pool ∧ e.index = index then f e else e }

end EventDb

/-! ### Events -/

/-- Postgres's refusal of a value that a unique column has already. -/
def duplicateKey (constraint : String) : Except String EventDb :=
  .error ("duplicate key value violates unique constraint \"" ++ constraint ++ "\"")

/-- What a registered pool is known by, from its event or its account. -/
structure PoolUpsert where
  pool : String
  baseMint : String
  quoteMint : String
  commodity : String
  feeBps : Int
  creator : String
  deriving DecidableEq, Repr

/-- Skipped where the commodity is unknown. -/
def upsertPool (env : IngestEnv) (p : PoolUpsert) (sig : Option String) (db : EventDb) :
    Except String EventDb :=
  match db.symbolForCommodity p.commodity with
  | none => .ok db
  | some c =>
      if db.pools.any fun q => q.baseMint = p.baseMint ∧ q.dbcPool ≠ p.pool then
        duplicateKey "pools_base_mint_key"
      else
        let baseVault := some (env.vaults.dbcTokenVault p.baseMint p.pool)
        let quoteVault := some (env.vaults.dbcTokenVault p.quoteMint p.pool)
        if (db.poolExists p.pool).isSome then
          .ok { db with pools := db.pools.map fun q =>
            if q.dbcPool = p.pool then
              { q with baseMint := p.baseMint, quoteMint := p.quoteMint, commodity := c.symbol
                       feeBps := p.feeBps, baseVault, quoteVault
                       registeredSig := q.registeredSig.or sig }
            else q }
        else
          .ok { db with pools := db.pools ++ [{
            dbcPool := p.pool, baseMint := p.baseMint, quoteMint := p.quoteMint
            commodity := c.symbol, creator := p.creator, feeBps := p.feeBps
            baseVault, quoteVault, dammPool := none, dammBaseVault := none, dammQuoteVault := none
            migratedAt := none, registeredSig := sig }] }

/-- `STATUS_TEXT[status] ?? "halted"`. -/
def statusText (status : Int) : String :=
  if status = 0 then "open" else if status = 1 then "closed" else "halted"

/-- The unique column, if any, that a commodity's address and mint would break. -/
def commodityClash (commodity symbol mint : String) (db : EventDb) : Option String :=
  if db.commodities.any fun c => c.symbol ≠ symbol ∧ c.mint = mint then some "commodities_mint_key"
  else if db.commodities.any fun c => c.symbol ≠ symbol ∧ c.commodityPubkey = some commodity then
    some "commodities_commodity_pubkey_key"
  else none

/-- The `CommodityCreated` case: the commodity's row gets its address, or is made where the
registry has the symbol. -/
def applyCommodityCreated (env : IngestEnv) (commodity symbol mint : String) (db : EventDb) :
    Except String EventDb :=
  if db.commodities.any (·.symbol = symbol) then
    match commodityClash commodity symbol mint db with
    | some constraint => duplicateKey constraint
    | none => .ok (db.updateCommodity symbol
      fun c => { c with commodityPubkey := some commodity, mint })
  else
    match env.registry symbol with
    | none => .ok db
    | some oracleKind =>
        match commodityClash commodity symbol mint db with
        | some constraint => duplicateKey constraint
        | none =>
            .ok { db with commodities := db.commodities ++ [{
              symbol, mint, commodityPubkey := some commodity, oracleKind := some oracleKind
              status := "open", supplyOutstanding := 0, reserveBalance := 0
              lastPriceUsd := none, lastPublishTime := none }] }

/-- The row of a `Trade`. -/
def tradeRowOf (tx : EventTx) (symbol user : String) (side usdc coin price spreadBps : Int) :
    CommodityTrade where
  sig := tx.signature
  commodity := symbol
  ts := tx.blockTime
  side := side
  usdc := usdc
  coin := coin
  price := price
  spreadBps := spreadBps
  trader := user

/-- A commodity's totals after a new trade. -/
def CommodityRow.trade (c : CommodityRow) (r : CommodityTrade) : CommodityRow :=
  if r.side = 0 then
    { c with supplyOutstanding := max 0 (c.supplyOutstanding + r.coin)
             reserveBalance := max 0 (c.reserveBalance + r.usdc) }
  else
    { c with supplyOutstanding := max 0 (c.supplyOutstanding - r.coin)
             reserveBalance := max 0 (c.reserveBalance - r.usdc) }

/-- The `Trade` case: the totals move only with a row that is new. -/
def applyTrade (r : CommodityTrade) (db : EventDb) : EventDb :=
  if db.commodityTrades.any (·.key = r.key) then db
  else
    let db : EventDb := { db with commodityTrades := db.commodityTrades ++ [r] }
    db.updateCommodity r.commodity (·.trade r)

/-- The `PriceUpdated` case. -/
def applyPriceUpdated (c : CommodityRow) (price conf publishTime : Int) (db : EventDb) : EventDb :=
  let source := if c.oracleKind = some 1 then "switchboard" else "keeper"
  let db : EventDb := { db with
    prices := insertNew PriceRow.key db.prices
      { commodity := c.symbol, ts := publishTime, price, conf, source } }
  db.updateCommodity c.symbol fun c =>
    if ∀ t ∈ c.lastPublishTime, t ≤ publishTime then
      { c with lastPriceUsd := some price, lastPublishTime := some publishTime }
    else c

/-- The `StatusChanged` case. -/
def applyStatusChanged (commodity : String) (status : Int) (db : EventDb) : EventDb :=
  { db with commodities := db.commodities.map fun c =>
      if c.commodityPubkey = some commodity then { c with status := statusText status } else c }

/-- The `MigrationRecorded` case. -/
def applyMigrationRecorded (env : IngestEnv) (tx : EventTx) (p : PoolRecord) (dammPool : String)
    (db : EventDb) : EventDb :=
  { db with pools := db.pools.map fun q =>
      if q.dbcPool = p.dbcPool then
        { q with migratedAt := q.migratedAt.or (some tx.blockTime), dammPool := some dammPool
                 dammBaseVault := some (env.vaults.dammTokenVault p.baseMint dammPool)
                 dammQuoteVault := some (env.vaults.dammTokenVault p.quoteMint dammPool) }
      else q }

/-- The `EpochOpened` case; the window is not in the event. -/
def applyEpochOpened (env : IngestEnv) (tx : EventTx) (p : PoolRecord) (index total holders : Int)
    (db : EventDb) : EventDb :=
  let epochPubkey := some (env.epochPda p.dbcPool index.toNat)
  if db.epochs.any fun e => e.pool = p.dbcPool ∧ e.index = index then
    db.updateEpoch p.dbcPool index fun e =>
      { e with totalAmount := total, eligibleHolders := holders
               epochPubkey := e.epochPubkey.or epochPubkey }
  else
    { db with epochs := db.epochs ++ [{
        pool := p.dbcPool, index, coinMint := p.quoteMint, startTs := tx.blockTime
        endTs := tx.blockTime, totalAmount := total, pushedAmount := 0, claimedAmount := 0
        merkleRoot := none, eligibleHolders := holders, finalized := false, epochPubkey }] }

/-- The `Payout` case: an epoch's sums move only with a row that is new. -/
def applyPayout (r : PayoutRow) (epoch : String) (db : EventDb) : EventDb :=
  if db.payouts.any (·.key = r.key) then db
  else
    let db : EventDb := { db with payouts := db.payouts ++ [r] }
    if r.kind = 1 then
      let db : EventDb := { db with merkleLeaves := db.merkleLeaves.map fun l =>
        if l.epochPubkey = epoch ∧ l.wallet = r.wallet then { l with claimed := true } else l }
      db.updateEpoch r.pool r.epoch fun e => { e with claimedAmount := e.claimedAmount + r.amount }
    else
      db.updateEpoch r.pool r.epoch fun e =>
        if e.finalized = false then { e with pushedAmount := e.pushedAmount + r.amount } else e

/-- The `EpochFinalized` case. -/
def applyEpochFinalized (pool : String) (index : Int) (merkleRoot : String) (remainder : Int)
    (db : EventDb) : EventDb :=
  db.updateEpoch pool index fun e =>
    { e with finalized := true, merkleRoot := some merkleRoot
             pushedAmount := max 0 (e.totalAmount - remainder) }

def applyEvent (env : IngestEnv) (tx : EventTx) (ev : IcemarketsEvent) (db : EventDb) :
    Except String EventDb :=
  match ev with
  | .commodityCreated commodity symbol mint => applyCommodityCreated env commodity symbol mint db
  | .trade commodity user side usdc coin price spreadBps =>
      match db.symbolForCommodity commodity with
      | none => .ok db
      | some c => .ok (applyTrade (tradeRowOf tx c.symbol user side usdc coin price spreadBps) db)
  | .priceUpdated commodity price conf publishTime =>
      match db.symbolForCommodity commodity with
      | none => .ok db
      | some c => .ok (applyPriceUpdated c price conf publishTime db)
  | .statusChanged commodity status => .ok (applyStatusChanged commodity status db)
  | .poolRegistered pool baseMint quoteMint commodity feeBps =>
      let creator := if tx.feePayer = "" then pool else tx.feePayer
      upsertPool env { pool, baseMint, quoteMint, commodity, feeBps, creator }
        (some tx.signature) db
  | .feesClaimed pool source quoteAmount baseAmount =>
      match db.poolExists pool with
      | none => .ok db
      | some _ =>
          let row := { pool, source, quoteAmount, baseAmount, sig := tx.signature }
          .ok { db with feeClaims := insertNew FeeClaim.key db.feeClaims row }
  | .feesSplit pool holders buyback protocol =>
      match db.poolExists pool with
      | none => .ok db
      | some _ =>
          let row := { sig := tx.signature, pool, holders, buyback, protocol }
          .ok { db with feeSplits := insertNew FeeSplit.key db.feeSplits row }
  | .migrationRecorded pool dammPool =>
      match db.poolExists pool with
      | none => .ok db
      | some p => .ok (applyMigrationRecorded env tx p dammPool db)
  | .epochOpened pool index total holders =>
      match db.poolExists pool with
      | none => .ok db
      | some p => .ok (applyEpochOpened env tx p index total holders db)
  | .payout pool epoch wallet coinMint amount payoutKind =>
      match db.poolExists pool with
      | none => .ok db
      | some _ =>
          match db.epochIndexFor env pool epoch with
          | none => .ok db
          | some index => .ok (applyPayout
              { pool, epoch := index, wallet, coinMint, amount, kind := payoutKind,
                sig := tx.signature }
              epoch db)
  | .epochFinalized pool index merkleRoot remainder =>
      .ok (applyEpochFinalized pool index merkleRoot remainder db)
  | .buyback coin coinAmount gldAmount iceBurned =>
      let row := { coinMint := coin, coinAmount, gldAmount, iceBurned, sig := tx.signature }
      .ok { db with buybacks := insertNew BuybackRow.key db.buybacks row }

/-! ### Transactions -/

/-- `PROGRAM_ORDER`. -/
def programOrder : List ProgramName := [.pegDesk, .feeRouter, .distributor, .buyback]

def isPoolRegistered : IcemarketsEvent → Bool
  | .poolRegistered .. => true
  | _ => false

/-- The events a transaction is applied with, in order. -/
def EventTx.ordered (tx : EventTx) : List IcemarketsEvent :=
  (tx.events.getD []).insertionSort fun a b =>
    programOrder.idxOf a.program ≤ programOrder.idxOf b.program

/-- Upsert every `PoolState` on chain that the database does not know. -/
def reconcilePools (env : IngestEnv) (states : List PoolUpsert) (db : EventDb) :
    Except String EventDb :=
  (states.filter fun st => (db.poolExists st.pool).isNone).foldlM
    (fun db st => upsertPool env st none db) db

/-- Whether a `RegisterPool` ran whose event the logs have lost. -/
def EventTx.lostPool (tx : EventTx) : Bool :=
  tx.events.isSome && tx.registersPool && !(tx.events.getD []).any isPoolRegistered

/-- The statements of `ingestTransaction` on the event tables; `states` are the accounts
on chain. -/
def ingestEvents (env : IngestEnv) (tx : EventTx) (states : List PoolUpsert) (db : EventDb) :
    Except String EventDb :=
  if tx.failed then .ok db
  else do
    let db ← tx.ordered.foldlM (fun db ev => applyEvent env tx ev db) db
    if tx.lostPool then reconcilePools env states db else .ok db

/-- A failed ingestion is rolled back to its savepoint. -/
def ingestTransaction (env : IngestEnv) (tx : EventTx) (states : List PoolUpsert)
    (db : EventDb) : EventDb :=
  match ingestEvents env tx states db with
  | .ok db' => db'
  | .error _ => db

end IceMarkets.Indexer.Ingest
