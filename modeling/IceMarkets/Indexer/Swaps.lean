import IceMarkets.Indexer.Balances
import IceMarkets.Lib.Numeric
import Mathlib.Data.Int.Lemmas

/-!
# IceMarkets.Indexer.Swaps

Swaps of registered pools, decoded from the net token-balance changes of each pool's
vaults, and the rows of `trades` they become (`decode/swaps.ts`, `loadPoolRefs` and
`writeSwaps` of `decode/ingest.ts`).

The price columns of a trade play no part here: they are the ratio of the amounts, and
that ratio times a price of the pool's commodity. A registered pool has its commodity,
so the `select` behind an insert has one row.
-/

namespace IceMarkets.Indexer

open Numeric

/-! ### Pools -/

/-- A row of `pools`, and the `PoolRef` made of it. -/
structure PoolRow extends PoolRef where
  quoteMint : String
  quoteVault : Option String
  dammPool : Option String
  dammQuoteVault : Option String
  deriving DecidableEq, Repr

/-- How the vault addresses of a pool derive from a mint and the pool's address. -/
structure TokenVaults where
  dbcTokenVault : (mint pool : String) → String
  dammTokenVault : (mint pool : String) → String

/-- Neither null nor empty. -/
def isSet (v : Option String) : Bool := v.any (· ≠ "")

/-- The row with its missing vault columns filled in. -/
def PoolRow.filled (V : TokenVaults) (p : PoolRow) : PoolRow :=
  if !isSet p.baseVault || !isSet p.quoteVault ||
      (isSet p.dammPool && (!isSet p.dammBaseVault || !isSet p.dammQuoteVault)) then
    let q := { p with
      baseVault := p.baseVault.or (some (V.dbcTokenVault p.baseMint p.dbcPool))
      quoteVault := p.quoteVault.or (some (V.dbcTokenVault p.quoteMint p.dbcPool)) }
    match p.dammPool with
    | some damm =>
        if damm = "" then q
        else { q with
          dammBaseVault := p.dammBaseVault.or (some (V.dammTokenVault p.baseMint damm))
          dammQuoteVault := p.dammQuoteVault.or (some (V.dammTokenVault p.quoteMint damm)) }
    | none => q
  else p

/-- Registered pools whose memecoin is among `mints`, in the order the query returns. -/
def loadPoolRefs (V : TokenVaults) (registry : List PoolRow) (mints : List String) : List PoolRow :=
  (registry.filter (·.baseMint ∈ mints)).map (·.filled V)

/-! ### Decoding -/

/-- A transaction with what its swaps read besides the balances. -/
structure SwapTx extends NormalizedTx where
  feePayer : String
  deriving DecidableEq, Repr

inductive Venue
  | dbc
  | damm
  deriving DecidableEq, Repr

/-- `0` is a buy, `1` a sell. -/
inductive Side
  | buy
  | sell
  deriving DecidableEq, Repr

structure DecodedSwap where
  pool : String
  venue : Venue
  side : Side
  base : Int
  quote : Int
  trader : String
  deriving DecidableEq, Repr

def sumFor (deltas : List TokenDelta) (tokenAccount : Option String) : Int :=
  match tokenAccount with
  | none => 0
  | some account =>
      if account = "" then 0
      else ((deltas.filter (·.tokenAccount = account)).map (·.delta)).sum

/-- What `classify` finds in a pair of net vault changes. -/
structure Classified where
  side : Side
  base : Int
  quote : Int
  deriving DecidableEq, Repr

def classify (baseD quoteD : Int) : Option Classified :=
  if baseD < 0 ∧ 0 < quoteD then some { side := .buy, base := -baseD, quote := quoteD }
  else if 0 < baseD ∧ quoteD < 0 then some { side := .sell, base := baseD, quote := -quoteD }
  else none

/-- The loop of `pickTrader` for an owner: the largest change in the trade's direction. -/
def pickOwner (side : Side) (best : Option String × Int) (owner : String × Int) :
    Option String × Int :=
  if (side = .buy ∧ owner.2 ≤ 0) ∨ (side = .sell ∧ 0 ≤ owner.2) then best
  else
    let a := if owner.2 < 0 then -owner.2 else owner.2
    if best.2 < a then (some owner.1, a) else best

/-- The wallet whose memecoin moved most in the trade's direction; the fee payer when
nothing matches. -/
def pickTrader (owners : List (String × Int)) (side : Side) (feePayer : String) : String :=
  (owners.foldl (pickOwner side) (none, 0)).1.getD feePayer

/-- The curve's trade. When both vaults grew, the pool was created and first bought from in
one transaction, and what was bought is what others than the vaults received. -/
def classifyDbc (tx : SwapTx) (pool : PoolRow) : Option Classified :=
  let dbcBase := sumFor tx.tokenDeltas pool.baseVault
  let dbcQuote := sumFor tx.tokenDeltas pool.quoteVault
  match classify dbcBase dbcQuote with
  | some c => some c
  | none =>
      if 0 < dbcBase ∧ 0 < dbcQuote then
        let received := (((ownerBaseDeltas tx.toNormalizedTx pool.toPoolRef).map
          (·.2)).filter (0 < ·)).sum
        if 0 < received then some { side := .buy, base := received, quote := dbcQuote } else none
      else none

/-- The trade of the pool it migrated to. -/
def classifyDamm (tx : SwapTx) (pool : PoolRow) : Option Classified :=
  if isSet pool.dammBaseVault && isSet pool.dammQuoteVault then
    classify (sumFor tx.tokenDeltas pool.dammBaseVault) (sumFor tx.tokenDeltas pool.dammQuoteVault)
  else none

def decodedSwap (tx : SwapTx) (pool : PoolRow) (venue : Venue) (c : Classified) : DecodedSwap where
  pool := pool.dbcPool
  venue := venue
  side := c.side
  base := c.base
  quote := c.quote
  trader := pickTrader (ownerBaseDeltas tx.toNormalizedTx pool.toPoolRef) c.side tx.feePayer

/-- The swaps of one pool: on the curve, then where it migrated to. -/
def poolSwaps (tx : SwapTx) (pool : PoolRow) : List DecodedSwap :=
  ((classifyDbc tx pool).map (decodedSwap tx pool .dbc)).toList ++
    ((classifyDamm tx pool).map (decodedSwap tx pool .damm)).toList

def decodeSwaps (tx : SwapTx) (pools : List PoolRow) : List DecodedSwap :=
  if tx.failed then [] else pools.flatMap (poolSwaps tx)

/-! ### Rows -/

/-- A row of `trades`; `sig` is its primary key. Amounts are in millionths. -/
structure TradeRow where
  sig : String
  pool : String
  ts : Int
  side : Side
  base : Int
  quote : Int
  trader : String
  deriving DecidableEq, Repr

/-- The key of the `i`-th decoded swap. -/
def tradeKey (sig : String) (i : Nat) : String := if i = 0 then sig else sig ++ ":" ++ Nat.repr i

/-- The row of the `i`-th decoded swap; its amounts are divided in SQL. -/
def tradeRow (tx : SwapTx) (i : Nat) (s : DecodedSwap) : TradeRow where
  sig := tradeKey tx.signature i
  pool := s.pool
  ts := tx.blockTime
  side := s.side
  base := perMillion s.base
  quote := perMillion s.quote
  trader := s.trader

/-- `insert into trades … on conflict (sig) do nothing`. -/
def insertTrade (row : TradeRow) (trades : List TradeRow) : List TradeRow :=
  if trades.any (·.sig = row.sig) then trades else trades ++ [row]

/-- The loop of `writeSwaps` from the `i`-th swap. -/
def writeSwapsFrom (tx : SwapTx) : (i : Nat) → List DecodedSwap → List TradeRow → List TradeRow
  | _, [], trades => trades
  | i, s :: swaps, trades =>
      writeSwapsFrom tx (i + 1) swaps
        (if s.base = 0 then trades else insertTrade (tradeRow tx i s) trades)

def writeSwaps (tx : SwapTx) (pools : List PoolRow) (trades : List TradeRow) : List TradeRow :=
  writeSwapsFrom tx 0 (decodeSwaps tx pools) trades

/-- The trades part of `ingestTransaction`, with the pools registered at the time. -/
def ingestTrades (V : TokenVaults) (tx : SwapTx) (trades : List TradeRow)
    (registry : List PoolRow) :
    List TradeRow :=
  if tx.failed then trades
  else
    let pools := loadPoolRefs V registry (touchedMints tx.toNormalizedTx)
    if pools.isEmpty then trades else writeSwaps tx pools trades

/-! ### What a decoded swap is -/

theorem classify_pos {baseD quoteD : Int} {c : Classified} (h : classify baseD quoteD = some c) :
    0 < c.base ∧ 0 < c.quote := by
  unfold classify at h
  split_ifs at h with hbuy hsell
  · cases h
    exact ⟨by simpa using hbuy.1, hbuy.2⟩
  · cases h
    exact ⟨hsell.1, by simpa using hsell.2⟩

theorem classifyDbc_pos {tx : SwapTx} {pool : PoolRow} {c : Classified}
    (h : classifyDbc tx pool = some c) : 0 < c.base ∧ 0 < c.quote := by
  unfold classifyDbc at h
  simp only at h
  split at h
  · next c' hc =>
      cases h
      exact classify_pos hc
  · split_ifs at h with hgrew hreceived
    cases h
    exact ⟨hreceived, hgrew.2⟩

theorem classifyDamm_pos {tx : SwapTx} {pool : PoolRow} {c : Classified}
    (h : classifyDamm tx pool = some c) : 0 < c.base ∧ 0 < c.quote := by
  unfold classifyDamm at h
  split_ifs at h
  exact classify_pos h

theorem mem_poolSwaps {tx : SwapTx} {pool : PoolRow} {s : DecodedSwap} (h : s ∈ poolSwaps tx pool) :
    s.pool = pool.dbcPool ∧ 0 < s.base ∧ 0 < s.quote := by
  unfold poolSwaps at h
  simp only [List.mem_append, Option.mem_toList, Option.map_eq_some_iff] at h
  rcases h with ⟨c, hc, rfl⟩ | ⟨c, hc, rfl⟩
  · exact ⟨rfl, classifyDbc_pos hc⟩
  · exact ⟨rfl, classifyDamm_pos hc⟩

theorem decodeSwaps_base_pos {tx : SwapTx} {pools : List PoolRow} {s : DecodedSwap}
    (h : s ∈ decodeSwaps tx pools) : 0 < s.base := by
  unfold decodeSwaps at h
  split_ifs at h
  · cases h
  · obtain ⟨pool, -, hs⟩ := List.mem_flatMap.mp h
    exact (mem_poolSwaps hs).2.1

/-- Filtering by what the blocks of a list have in common filters the blocks. -/
theorem filter_flatMap_eq {α β : Type*} {f : α → List β} {p : β → Bool} {q : α → Bool} {l : List α}
    (h : ∀ a ∈ l, ∀ x ∈ f a, p x = q a) : (l.flatMap f).filter p = (l.filter q).flatMap f := by
  induction l with
  | nil => rfl
  | cons a l ih =>
      have ih := ih fun b hb => h b (List.mem_cons_of_mem _ hb)
      have ha := h a List.mem_cons_self
      rw [List.flatMap_cons, List.filter_append, ih]
      by_cases hq : q a = true
      · rw [List.filter_cons_of_pos hq, List.flatMap_cons,
          List.filter_eq_self.mpr fun x hx => (ha x hx).trans hq]
      · rw [List.filter_cons_of_neg hq, List.filter_eq_nil_iff.mpr fun x hx => by rwa [ha x hx],
          List.nil_append]

/-- The pools of an address are the one that has it. -/
theorem filter_dbcPool {pools : List PoolRow} {pool : PoolRow}
    (hnodup : (pools.map (·.dbcPool)).Nodup) (h : pool ∈ pools) :
    pools.filter (·.dbcPool = pool.dbcPool) = [pool] := by
  induction pools with
  | nil => cases h
  | cons p pools ih =>
      rw [List.map_cons, List.nodup_cons] at hnodup
      rcases List.mem_cons.mp h with rfl | hmem
      · have hrest : pools.filter (·.dbcPool = pool.dbcPool) = [] := by
          rw [List.filter_eq_nil_iff]
          intro q hq heq
          exact hnodup.1 (List.mem_map.mpr ⟨q, hq, of_decide_eq_true heq⟩)
        rw [List.filter_cons_of_pos (by simp), hrest]
      · have hne : p.dbcPool ≠ pool.dbcPool := fun heq =>
          hnodup.1 (List.mem_map.mpr ⟨pool, hmem, heq.symm⟩)
        rw [List.filter_cons_of_neg (by simpa using hne)]
        exact ih hnodup.2 hmem

end IceMarkets.Indexer
