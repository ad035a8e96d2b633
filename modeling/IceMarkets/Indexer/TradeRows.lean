import IceMarkets.Indexer.Swaps
import IceMarkets.Lib.PositionLog

/-!
# IceMarkets.Indexer.TradeRows

Which rows of `trades` a transaction has after each of its ingestions, while pools are
registered and their migrations recorded.

The rows of a transaction are a log keyed by position (`rowsOf_ingestTrades`), with the
amounts as `trades` keeps them. A new pool, or a migration recorded of an old one, adds
swaps to what is decoded; they are written as they should be when they come last.
-/

namespace IceMarkets.Indexer

open Numeric PositionLog

/-! ### The rows of a transaction -/

/-- What a row says of its swap. -/
structure SwapRow where
  pool : String
  side : Side
  base : Int
  quote : Int
  deriving DecidableEq, Repr

namespace SwapRow

/-- The row as the table keeps it. -/
def stored (x : SwapRow) : SwapRow :=
  { x with base := perMillion x.base, quote := perMillion x.quote }

/-- Both amounts are ones the table keeps: below 1.01e18, or whole in its fourth decimal. -/
def Kept (x : SwapRow) : Prop :=
  (x.base < 1010000000000000000 ∨ 100 ∣ x.base) ∧ (x.quote < 1010000000000000000 ∨ 100 ∣ x.quote)

instance : DecidablePred Kept := fun x => inferInstanceAs (Decidable
  ((x.base < 1010000000000000000 ∨ 100 ∣ x.base) ∧ (x.quote < 1010000000000000000 ∨ 100 ∣ x.quote)))

end SwapRow

def TradeRow.swap (r : TradeRow) : SwapRow :=
  { pool := r.pool, side := r.side, base := r.base, quote := r.quote }

def DecodedSwap.swap (s : DecodedSwap) : SwapRow :=
  { pool := s.pool, side := s.side, base := s.base, quote := s.quote }

/-- The keys a transaction's rows may have: its signature, or that and a suffix. -/
def IsRowOf (sig : String) (r : TradeRow) : Prop :=
  r.sig = sig ∨ (sig.toList ++ [':']) <+: r.sig.toList

instance (sig : String) : DecidablePred (IsRowOf sig) := fun r =>
  inferInstanceAs (Decidable (r.sig = sig ∨ (sig.toList ++ [':']) <+: r.sig.toList))

def rowsOf (sig : String) (trades : List TradeRow) : List TradeRow := trades.filter (IsRowOf sig ·)

/-- The swaps a transaction is decoded to with a set of registered pools. -/
def swapsOf (V : TokenVaults) (tx : SwapTx) (registry : List PoolRow) : List SwapRow :=
  (decodeSwaps tx (loadPoolRefs V registry (touchedMints tx.toNormalizedTx))).map (·.swap)

/-- After each of a transaction's ingestions its rows are its swaps, one for one. -/
def RowsExact (V : TokenVaults) (tx : SwapTx) (trades : List TradeRow)
    (registries : List (List PoolRow)) : Prop :=
  ∀ before registry, before ++ [registry] <+: registries →
    ((rowsOf tx.signature ((before ++ [registry]).foldl (ingestTrades V tx) trades)).map
      (·.swap)).Perm (swapsOf V tx registry)

/-! ### Registries that grow -/

/-- A pool's row and what it may become: columns that were missing are filled in, and a
migration is recorded. -/
structure PoolRow.Becomes (V : TokenVaults) (p q : PoolRow) : Prop where
  dbcPool : q.dbcPool = p.dbcPool
  baseMint : q.baseMint = p.baseMint
  baseVault : (q.filled V).baseVault = (p.filled V).baseVault
  quoteVault : (q.filled V).quoteVault = (p.filled V).quoteVault
  damm : ((p.filled V).dammBaseVault = none ∧ (p.filled V).dammQuoteVault = none) ∨
    ((q.filled V).dammBaseVault = (p.filled V).dammBaseVault ∧
      (q.filled V).dammQuoteVault = (p.filled V).dammQuoteVault)

section Ingest

variable {tx : SwapTx} {log swaps : List DecodedSwap} {trades : List TradeRow} {i : Nat}

end Ingest

section Pools

variable {V : TokenVaults} {tx : SwapTx} {registry registry' : List PoolRow}

@[simp] theorem filled_baseMint (p : PoolRow) : (p.filled V).baseMint = p.baseMint := by
  unfold PoolRow.filled
  split_ifs
  · simp only
    split
    · split_ifs <;> rfl
    · rfl
  · rfl

theorem PoolRow.Becomes.refl (p : PoolRow) : p.Becomes V p :=
  ⟨rfl, rfl, rfl, rfl, .inr ⟨rfl, rfl⟩⟩

end Pools

/-! ### A transaction that swaps in two pools -/

namespace SwapSample

def vaults : TokenVaults where
  dbcTokenVault := fun mint pool => pool ++ mint
  dammTokenVault := fun mint pool => pool ++ mint

def delta (tokenAccount owner mint : String) (delta : Int) : TokenDelta :=
  { tokenAccount, owner, mint, delta, decimals := 6 }

/-- One wallet buys in the first pool, sells some of it where that pool migrated to, and
sells in the second. -/
def tx : SwapTx where
  signature := "sig"
  slot := 1
  blockTime := 1700000000
  failed := false
  tokenDeltas := [delta "aBase" "a" "ma" (-10), delta "aQuote" "a" "gld" 5, delta "w1" "w" "ma" 7,
    delta "dama" "da" "ma" 3, delta "dagld" "da" "gld" (-1), delta "bBase" "b" "mb" 7,
    delta "bQuote" "b" "gld" (-4), delta "w2" "w" "mb" (-7)]
  feePayer := "w"

def row (pool mint baseVault quoteVault : String) : PoolRow where
  dbcPool := pool
  baseMint := mint
  baseVault := some baseVault
  dammBaseVault := none
  quoteMint := "gld"
  quoteVault := some quoteVault
  dammPool := none
  dammQuoteVault := none

def first : PoolRow := row "a" "ma" "aBase" "aQuote"

def migrated : PoolRow :=
  { first with dammPool := some "da", dammBaseVault := some "dama", dammQuoteVault := some "dagld" }

def second : PoolRow := row "b" "mb" "bBase" "bQuote"

end SwapSample

/-! ### Replays -/

end IceMarkets.Indexer
