import IceMarkets.Lib.InsertionMap
import Mathlib.Algebra.Ring.Int.Defs

/-!
# IceMarkets.Indexer.Balances

The indexer's balance ledger: from a transaction's token balances to the rows of
`balance_events` and `balances` (`decode/normalize.ts`, `decode/swaps.ts`,
`decode/ingest.ts`).

Keys, mints and signatures are the strings the RPC gives. Amounts are in base units:
the human units of the tables are exact, with six decimals. What a transaction
carries besides its balances (programs, logs, fee payer) and a pool besides its
memecoin and its base vaults plays no part here.
-/

namespace IceMarkets.Indexer

open InsertionMap

/-! ### Transactions -/

/-- One entry of `preTokenBalances` or `postTokenBalances`. -/
structure RpcTokenBalance where
  accountIndex : Nat
  mint : String
  owner : Option String
  amount : Nat
  decimals : Nat
  deriving DecidableEq, Repr

/-- A transaction as the RPC returns it. -/
structure RpcTx where
  signature : String
  slot : Nat
  blockTime : Int
  failed : Bool
  keys : List String
  pre : List RpcTokenBalance
  post : List RpcTokenBalance
  deriving DecidableEq, Repr

/-- Net change of one token account inside one transaction. -/
structure TokenDelta where
  tokenAccount : String
  owner : String
  mint : String
  delta : Int
  decimals : Nat
  deriving DecidableEq, Repr

structure NormalizedTx where
  signature : String
  slot : Nat
  blockTime : Int
  failed : Bool
  tokenDeltas : List TokenDelta
  deriving DecidableEq, Repr

/-- An entry of `byIndex`. -/
structure Touched where
  mint : String
  owner : String
  decimals : Nat
  pre : Nat
  post : Nat
  deriving DecidableEq, Repr

/-- The entry of a balance's account: its mint and its owner are those of the first
balance seen, unless that one had no owner. -/
def touch (b : RpcTokenBalance) (e : Option Touched) : Touched :=
  let e := e.getD { mint := b.mint, owner := b.owner.getD "", decimals := b.decimals, pre := 0
                    post := 0 }
  if e.owner = "" then { e with owner := b.owner.getD "" } else e

/-- `byIndex` after both loops. -/
def byIndex (pre post : List RpcTokenBalance) : List (Nat × Touched) :=
  fold (·.accountIndex) (fun b e => { touch b e with post := b.amount }) post
    (fold (·.accountIndex) (fun b e => { touch b e with pre := b.amount }) pre [])

/-- The key of an account index. -/
def accountKey (keys : List String) (index : Nat) : String :=
  (keys[index]?).getD ("#" ++ toString index)

/-- post − pre per token account: a missing pre was created in this transaction, a
missing post closed. -/
def diffTokenBalances (keys : List String) (pre post : List RpcTokenBalance) : List TokenDelta :=
  (byIndex pre post).filterMap fun (index, e) =>
    let delta : Int := e.post - e.pre
    if delta = 0 then none
    else some { tokenAccount := accountKey keys index, owner := e.owner, mint := e.mint, delta
                decimals := e.decimals }

/-- `fromRawRpc` and `fromParsedRpc`. -/
def normalize (tx : RpcTx) : NormalizedTx where
  signature := tx.signature
  slot := tx.slot
  blockTime := tx.blockTime
  failed := tx.failed
  tokenDeltas := diffTokenBalances tx.keys tx.pre tx.post

/-! ### Deltas by owner -/

/-- A row of `pools`. -/
structure PoolRef where
  dbcPool : String
  baseMint : String
  baseVault : Option String
  dammBaseVault : Option String
  deriving DecidableEq, Repr

/-- The vault columns that are set. -/
def PoolRef.vaults (pool : PoolRef) : List String :=
  [pool.baseVault, pool.dammBaseVault].filterMap fun v => v.filter (· ≠ "")

/-- A delta of the pool's memecoin that is somebody's and not a vault's. -/
def PoolRef.Counts (pool : PoolRef) (d : TokenDelta) : Prop :=
  d.mint = pool.baseMint ∧ d.tokenAccount ∉ pool.vaults ∧ d.owner ≠ ""

instance (pool : PoolRef) : DecidablePred pool.Counts :=
  fun d => inferInstanceAs (Decidable
    (d.mint = pool.baseMint ∧ d.tokenAccount ∉ pool.vaults ∧ d.owner ≠ ""))

/-- Net memecoin change per owner, excluding the pool's own vaults. -/
def ownerBaseDeltas (tx : NormalizedTx) (pool : PoolRef) : List (String × Int) :=
  (fold (·.owner) (fun d v => v.getD 0 + d.delta) (tx.tokenDeltas.filter (pool.Counts ·)) []).filter
    fun kv => kv.2 ≠ 0

structure DecodedBalanceDelta where
  pool : String
  wallet : String
  delta : Int
  deriving DecidableEq, Repr

/-- Every wallet whose memecoin balance changed in this transaction, for every registered
pool whose base mint moved. -/
def decodeBalanceDeltas (tx : NormalizedTx) (pools : List PoolRef) : List DecodedBalanceDelta :=
  if tx.failed then []
  else pools.flatMap fun pool =>
    (ownerBaseDeltas tx pool).map fun (wallet, delta) => { pool := pool.dbcPool, wallet, delta }

/-- Mints whose balances moved. -/
def touchedMints (tx : NormalizedTx) : List String := tx.tokenDeltas.map (·.mint)

/-! ### Tables -/

/-- A row of `balance_events`, unique by `(pool, wallet, sig)`. -/
structure BalanceEvent where
  pool : String
  wallet : String
  delta : Int
  slot : Nat
  ts : Int
  sig : String
  deriving DecidableEq, Repr

/-- A row of `balances`, keyed by `(pool, wallet)`. -/
structure Balance where
  amount : Int
  updatedSlot : Nat
  deriving DecidableEq, Repr

structure Db where
  events : List BalanceEvent
  balances : List ((String × String) × Balance)
  deriving DecidableEq, Repr

/-- `insert into balances … on conflict (pool, wallet) do update`. -/
def addBalance (delta : Int) (slot : Nat) (b : Option Balance) : Balance :=
  match b with
  | none => { amount := delta, updatedSlot := slot }
  | some b => { amount := b.amount + delta, updatedSlot := max b.updatedSlot slot }

/-- `insert into balance_events … on conflict (pool, wallet, sig) do nothing`, and the
balance when the row was inserted. -/
def writeBalanceDelta (tx : NormalizedTx) (db : Db) (d : DecodedBalanceDelta) : Db :=
  if db.events.any fun r => r.pool = d.pool ∧ r.wallet = d.wallet ∧ r.sig = tx.signature then db
  else {
    events := db.events ++ [{ pool := d.pool, wallet := d.wallet, delta := d.delta, slot := tx.slot
                              ts := tx.blockTime, sig := tx.signature }]
    balances := upsert (d.pool, d.wallet) (addBalance d.delta tx.slot) db.balances }

def writeBalanceDeltas (tx : NormalizedTx) (pools : List PoolRef) (db : Db) : Db :=
  (decodeBalanceDeltas tx pools).foldl (writeBalanceDelta tx) db

/-- The balance part of `ingestTransaction`: `loadPoolRefs` picks the registered pools
whose memecoin the transaction moved. -/
def ingest (pools : List PoolRef) (tx : RpcTx) (db : Db) : Db :=
  let tx := normalize tx
  writeBalanceDeltas tx (pools.filter (·.baseMint ∈ touchedMints tx)) db

/-! ### What the tables say -/

/-- The sum of a wallet's `balance_events` deltas. -/
def Db.eventSum (db : Db) (pool wallet : String) : Int :=
  ((db.events.filter fun r => r.pool = pool ∧ r.wallet = wallet).map (·.delta)).sum

/-- A wallet's `balances.amount`; zero without a row. -/
def Db.balance (db : Db) (pool wallet : String) : Int :=
  ((db.balances.lookup (pool, wallet)).map (·.amount)).getD 0

end IceMarkets.Indexer
