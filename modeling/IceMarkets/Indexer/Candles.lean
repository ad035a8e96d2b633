import IceMarkets.Indexer.Swaps
import Mathlib.Algebra.Order.BigOperators.Group.List
import Mathlib.Data.Int.Order.Basic
import Mathlib.Data.List.Induction
import Mathlib.Data.List.Pairwise
import Mathlib.Data.List.Sort
import Mathlib.Order.Bounds.Basic
import Mathlib.Order.Lattice
import Mathlib.Tactic.Linarith

/-!
# IceMarkets.Indexer.Candles

The candle rebuild (`apps/indexer/src/candles.ts`) and the schedule it runs on.

A run replaces the candle of every bucket with a trade newer than its cutoff by the summary
of those trades alone. A summary of some of a bucket's trades has less volume than one of
all of them, so a candle stays right exactly as long as no cutoff falls between two trades
of its bucket.

Times are microseconds since the epoch, in a session whose time zone is UTC; prices and
amounts are in the last decimal of their columns.
-/

namespace IceMarkets.Indexer.Candles

/-! ### Definitions -/

/-- The columns of `trades` the rebuild reads. Every row's `base` is an amount that moved. -/
structure Trade where
  sig : String
  pool : String
  ts : Int
  priceQuote : Int
  base : Int
  base_pos : 0 < base
  deriving DecidableEq

inductive Timeframe
  | m1
  | m5
  | h1
  | d1
  deriving DecidableEq, Repr

namespace Timeframe

def second : Int := 1000000

/-- How long a bucket of `TIMEFRAMES` is. -/
def length : Timeframe → Int
  | m1 => 60 * second
  | m5 => 300 * second
  | h1 => 3600 * second
  | d1 => 86400 * second

theorem length_pos (tf : Timeframe) : 0 < tf.length := by
  cases tf <;> decide

/-- `bucketSql`: when the bucket of a time starts. -/
def bucket (tf : Timeframe) (ts : Int) : Int := ts / tf.length * tf.length

end Timeframe

structure Candle where
  o : Int
  h : Int
  l : Int
  c : Int
  v : Int
  deriving DecidableEq, Repr

/-- The table `trades` as the two windows of a statement number it. Trades of one time are in any
order, in either. -/
structure TableRead where
  asc : List Trade
  desc : List Trade
  asc_sorted : asc.Pairwise (·.ts ≤ ·.ts)
  desc_sorted : desc.Pairwise (·.ts ≥ ·.ts)
  perm : desc.Perm asc

/-- A run of `rebuildCandles`. -/
structure Rebuild where
  tf : Timeframe
  now : Int
  table : TableRead

/-- `sinceHours`. -/
def lookBack : Int := 48 * 3600 * Timeframe.second

/-- Whether a trade's time is in a bucket. -/
def InBucket (pool : String) (tf : Timeframe) (b : Int) (r : Trade) : Prop :=
  r.pool = pool ∧ tf.bucket r.ts = b

instance (pool : String) (tf : Timeframe) (b : Int) : DecidablePred (InBucket pool tf b) :=
  fun r => inferInstanceAs (Decidable (r.pool = pool ∧ tf.bucket r.ts = b))

/-- `ts > now() - interval '48 hours'`. -/
def Recent (now : Int) (r : Trade) : Prop := now - lookBack < r.ts

instance (now : Int) : DecidablePred (Recent now) :=
  fun r => inferInstanceAs (Decidable (now - lookBack < r.ts))

namespace Rebuild

variable (x : Rebuild)

/-- A partition of `buckets`, from either window. -/
def partition (rows : List Trade) (pool : String) (b : Int) : List Trade :=
  (rows.filter (InBucket pool x.tf b)).filter (Recent x.now)

/-- The row of `agg` for a pool and a bucket. -/
def agg (pool : String) (b : Int) : Option Candle := do
  let asc := x.partition x.table.asc pool b
  let desc := x.partition x.table.desc pool b
  let first ← asc.head?
  let last ← desc.head?
  let h ← (asc.map (·.priceQuote)).max?
  let l ← (asc.map (·.priceQuote)).min?
  some { o := first.priceQuote, h, l, c := last.priceQuote, v := (asc.map (·.base)).sum }

end Rebuild

/-- The table `candles` by its primary key. -/
def CandleTable := (pool : String) → (tf : Timeframe) → (ts : Int) → Option Candle

/-- Every row of `agg` is inserted, or replaces the one under its key. -/
def rebuildCandles (candles : CandleTable) (x : Rebuild) : CandleTable := fun pool tf ts =>
  if tf = x.tf then (x.agg pool ts).or (candles pool tf ts) else candles pool tf ts

/-- A schedule of runs. -/
def rebuildAll (candles : CandleTable) (xs : List Rebuild) : CandleTable :=
  xs.foldl rebuildCandles candles

/-- A candle is the summary of trades. -/
structure Summarises (rows : List Trade) (k : Candle) : Prop where
  o : ∃ r ∈ rows, (∀ r' ∈ rows, r.ts ≤ r'.ts) ∧ k.o = r.priceQuote
  h : k.h ∈ rows.map (·.priceQuote) ∧ ∀ p ∈ rows.map (·.priceQuote), p ≤ k.h
  l : k.l ∈ rows.map (·.priceQuote) ∧ ∀ p ∈ rows.map (·.priceQuote), k.l ≤ p
  c : ∃ r ∈ rows, (∀ r' ∈ rows, r'.ts ≤ r.ts) ∧ k.c = r.priceQuote
  v : k.v = (rows.map (·.base)).sum

/-- A cutoff falls between two trades. -/
def Splits (rows : List Trade) (now : Int) : Prop :=
  (∃ r ∈ rows, Recent now r) ∧ ∃ r ∈ rows, ¬ Recent now r

/-- The candle of a bucket is right after some run and after every later one, and its high, low
and volume stay. -/
structure StaysRight (rows : List Trade) (pool : String) (tf : Timeframe) (b : Int)
    (candles : CandleTable)
    (post : List Rebuild) : Prop where
  right : ∀ later, later <+: post →
    ∃ k, rebuildAll candles later pool tf b = some k ∧ Summarises rows k
  kept : ∀ later, later <+: post → ∀ k k', candles pool tf b = some k →
    rebuildAll candles later pool tf b = some k' → k'.h = k.h ∧ k'.l = k.l ∧ k'.v = k.v

/-! ### The trades of swaps -/

section Swaps

variable {V : TokenVaults} {tx : SwapTx} {rows : List TradeRow}

/-- A stored row as the rebuild reads it, at a price; block times are in seconds. -/
def Trade.ofRow (r : TradeRow) (priceQuote : Int) (base_pos : 0 < r.base) : Trade where
  sig := r.sig
  pool := r.pool
  ts := r.ts * Timeframe.second
  priceQuote := priceQuote
  base := r.base
  base_pos := base_pos

/-- Every trade that is stored moved an amount. -/
theorem writeSwaps_base_pos {pools : List PoolRow} (h : ∀ r ∈ rows, 0 < r.base) :
    ∀ r ∈ writeSwaps tx pools rows, 0 < r.base := by
  unfold writeSwaps
  have hall : ∀ s ∈ decodeSwaps tx pools, 0 < s.base := fun s hs => decodeSwaps_base_pos hs
  generalize decodeSwaps tx pools = swaps at hall
  generalize (0 : Nat) = i
  induction swaps generalizing i rows with
  | nil => exact h
  | cons s swaps ih =>
      unfold writeSwapsFrom
      refine ih ?_ (fun s' hs' => hall s' (List.mem_cons_of_mem _ hs')) _
      intro r hr
      split_ifs at hr
      · exact h r hr
      · unfold insertTrade at hr
        split_ifs at hr
        · exact h r hr
        · rcases List.mem_append.mp hr with hr | hr
          · exact h r hr
          · obtain rfl := List.mem_singleton.mp hr
            exact Numeric.perMillion_pos (hall s List.mem_cons_self)

theorem ingestTrades_base_pos {registry : List PoolRow} (h : ∀ r ∈ rows, 0 < r.base) :
    ∀ r ∈ ingestTrades V tx rows registry, 0 < r.base := by
  unfold ingestTrades
  dsimp only
  split_ifs
  · exact h
  · exact h
  · exact writeSwaps_base_pos h

/-- The table after transactions were ingested, each with the pools registered then. -/
def ingestAll (V : TokenVaults) (xs : List (SwapTx × List PoolRow)) : List TradeRow :=
  xs.foldl (fun rows x => ingestTrades V x.1 rows x.2) []

theorem ingestAll_base_pos (xs : List (SwapTx × List PoolRow)) :
    ∀ r ∈ ingestAll V xs, 0 < r.base := by
  unfold ingestAll
  induction xs using List.reverseRecOn with
  | nil => simp
  | append_singleton xs x ih =>
      rw [List.foldl_append]
      exact ingestTrades_base_pos ih

/-- Whatever was ingested, the rebuild has a table to read: the rows, each at its price. -/
theorem exists_tableRead (V : TokenVaults) (xs : List (SwapTx × List PoolRow))
    (price : TradeRow → Int) :
    ∃ table : TableRead, table.asc.Perm ((ingestAll V xs).pmap (fun r => Trade.ofRow r (price r))
      (ingestAll_base_pos xs)) := by
  generalize (ingestAll V xs).pmap _ _ = trades
  have hsorted : (trades.insertionSort (·.ts ≤ ·.ts)).Pairwise (·.ts ≤ ·.ts) := by
    have : Std.Total fun r r' : Trade => r.ts ≤ r'.ts := ⟨fun r r' => le_total r.ts r'.ts⟩
    have : IsTrans Trade (·.ts ≤ ·.ts) := ⟨fun _ _ _ h h' => le_trans h h'⟩
    exact List.pairwise_insertionSort _ _
  exact ⟨{
    asc := trades.insertionSort (·.ts ≤ ·.ts)
    desc := (trades.insertionSort (·.ts ≤ ·.ts)).reverse
    asc_sorted := hsorted
    desc_sorted := List.pairwise_reverse.mpr hsorted
    perm := List.reverse_perm _ }, List.perm_insertionSort _ _⟩

end Swaps

/-! ### One run -/

section Run

variable {rows rows' : List Trade} {k k' : Candle} {x : Rebuild} {pool : String}
  {tf : Timeframe} {b : Int}

theorem Summarises.perm (h : Summarises rows k) (hperm : rows.Perm rows') : Summarises rows' k where
  o := by
    obtain ⟨r, hr, hfirst, heq⟩ := h.o
    exact ⟨r, hperm.mem_iff.mp hr, fun r' hr' => hfirst r' (hperm.mem_iff.mpr hr'), heq⟩
  h := by
    have hprices := hperm.map (·.priceQuote)
    exact ⟨hprices.mem_iff.mp h.h.1, fun p hp => h.h.2 p (hprices.mem_iff.mpr hp)⟩
  l := by
    have hprices := hperm.map (·.priceQuote)
    exact ⟨hprices.mem_iff.mp h.l.1, fun p hp => h.l.2 p (hprices.mem_iff.mpr hp)⟩
  c := by
    obtain ⟨r, hr, hlast, heq⟩ := h.c
    exact ⟨r, hperm.mem_iff.mp hr, fun r' hr' => hlast r' (hperm.mem_iff.mpr hr'), heq⟩
  v := h.v.trans (hperm.map _).sum_eq

/-- Two summaries of one list agree on high, low and volume. -/
theorem Summarises.unique (h : Summarises rows k) (h' : Summarises rows k') :
    k'.h = k.h ∧ k'.l = k.l ∧ k'.v = k.v :=
  ⟨le_antisymm (h.h.2 _ h'.h.1) (h'.h.2 _ h.h.1), le_antisymm (h'.l.2 _ h.l.1) (h.l.2 _ h'.l.1),
    h'.v.trans h.v.symm⟩

theorem partition_perm : (x.partition x.table.desc pool b).Perm (x.partition x.table.asc pool b) :=
  (x.table.perm.filter _).filter _

/-- The first of sorted rows is the least. -/
theorem head?_le {R : Trade → Trade → Prop} (hrefl : ∀ r, R r r)
    (hsorted : rows.Pairwise R) {r : Trade}
    (h : rows.head? = some r) : r ∈ rows ∧ ∀ r' ∈ rows, R r r' := by
  cases rows with
  | nil => cases h
  | cons r₀ rows =>
      obtain rfl := Option.some.inj h
      refine ⟨List.mem_cons_self, ?_⟩
      intro r' hr'
      rcases List.mem_cons.mp hr' with rfl | hr'
      · exact hrefl _
      · exact (List.pairwise_cons.mp hsorted).1 r' hr'

/-- A row of `agg` is the summary of its partition. -/
theorem agg_summarises (h : x.agg pool b = some k) :
    Summarises (x.partition x.table.asc pool b) k := by
  unfold Rebuild.agg at h
  obtain ⟨first, hfirst, h⟩ := Option.bind_eq_some_iff.mp h
  obtain ⟨last, hlast, h⟩ := Option.bind_eq_some_iff.mp h
  obtain ⟨high, hhigh, h⟩ := Option.bind_eq_some_iff.mp h
  obtain ⟨low, hlow, h⟩ := Option.bind_eq_some_iff.mp h
  obtain rfl := Option.some.inj h
  have hasc : (x.partition x.table.asc pool b).Pairwise (·.ts ≤ ·.ts) :=
    (x.table.asc_sorted.filter _).filter _
  have hdesc : (x.partition x.table.desc pool b).Pairwise (·.ts ≥ ·.ts) :=
    (x.table.desc_sorted.filter _).filter _
  obtain ⟨hmem, hle⟩ := head?_le (fun r => le_refl r.ts) hasc hfirst
  obtain ⟨hmem', hge⟩ := head?_le (fun r => le_refl r.ts) hdesc hlast
  exact {
    o := ⟨first, hmem, hle, rfl⟩
    h := List.max?_eq_some_iff.mp hhigh
    l := List.min?_eq_some_iff.mp hlow
    c := ⟨last, partition_perm.mem_iff.mp hmem',
      fun r' hr' => hge r' (partition_perm.mem_iff.mpr hr'), rfl⟩
    v := rfl }

/-- `agg` has a row exactly where the partition has one. -/
theorem agg_isSome : (x.agg pool b).isSome ↔ x.partition x.table.asc pool b ≠ [] := by
  constructor
  · intro h hnil
    unfold Rebuild.agg at h
    rw [hnil] at h
    cases h
  · intro hne
    have hne' : x.partition x.table.desc pool b ≠ [] := by
      intro hnil
      have hperm := @partition_perm x pool b
      rw [hnil, List.nil_perm] at hperm
      exact hne hperm
    obtain ⟨first, rest, hasc⟩ := List.exists_cons_of_ne_nil hne
    obtain ⟨last, rest', hdesc⟩ := List.exists_cons_of_ne_nil hne'
    unfold Rebuild.agg
    rw [hasc, hdesc]
    rfl

/-- A part of trades has the whole's volume only when nothing is left out. -/
theorem filter_eq_of_sum {p : Trade → Prop} [DecidablePred p]
    (h : ((rows.filter p).map (·.base)).sum = (rows.map (·.base)).sum) : ∀ r ∈ rows, p r := by
  induction rows with
  | nil => simp
  | cons r rows ih =>
      have hle : ((rows.filter p).map (·.base)).sum ≤ (rows.map (·.base)).sum := by
        refine (List.filter_sublist.map _).sum_le_sum ?_
        intro v hv
        obtain ⟨r', -, rfl⟩ := List.mem_map.mp hv
        exact r'.base_pos.le
      by_cases hr : p r
      · rw [List.filter_cons_of_pos (by simpa using hr)] at h
        simp only [List.map_cons, List.sum_cons, add_right_inj] at h
        intro r' hr'
        rcases List.mem_cons.mp hr' with rfl | hr'
        · exact hr
        · exact ih h r' hr'
      · rw [List.filter_cons_of_neg (by simpa using hr), List.map_cons, List.sum_cons] at h
        have := r.base_pos
        omega

end Run

/-! ### Schedules -/

section Schedule

variable {trades : List Trade} {pool : String} {tf : Timeframe} {b : Int} {candles : CandleTable}
  {x y : Rebuild} {pre post : List Rebuild}

/-- A run that finds all of a closed bucket's trades in the table. -/
def Settled (trades : List Trade) (pool : String) (tf : Timeframe) (b : Int) (x : Rebuild) : Prop :=
  (x.table.asc.filter (InBucket pool tf b)).Perm (trades.filter (InBucket pool tf b))

theorem partition_settled (h : Settled trades pool tf b x) (htf : x.tf = tf) :
    (x.partition x.table.asc pool b).Perm
      ((trades.filter (InBucket pool tf b)).filter (Recent x.now)) := by
  subst htf
  exact h.filter _

/-- A run whose cutoff does not split a bucket leaves its candle right. -/
theorem rebuild_right (h : Settled trades pool tf b y)
    (hsplit : y.tf = tf → ¬ Splits (trades.filter (InBucket pool tf b)) y.now)
    (hright : ∃ k, candles pool tf b = some k ∧ Summarises (trades.filter (InBucket pool tf b)) k) :
    ∃ k, rebuildCandles candles y pool tf b = some k ∧
      Summarises (trades.filter (InBucket pool tf b)) k := by
  unfold rebuildCandles
  by_cases htf : tf = y.tf
  · rw [if_pos htf]
    have hpart := partition_settled h htf.symm
    cases hagg : y.agg pool b with
    | none => exact hright
    | some k =>
        refine ⟨k, rfl, (agg_summarises hagg).perm (hpart.trans ?_)⟩
        -- some trade is newer than the cutoff, so all are
        have hsome : y.partition y.table.asc pool b ≠ [] := by
          rw [← agg_isSome, hagg]
          rfl
        obtain ⟨r, hr⟩ := List.exists_mem_of_ne_nil _ hsome
        obtain ⟨hmem, hrecent⟩ := List.mem_filter.mp (hpart.mem_iff.mp hr)
        have hall : ∀ r' ∈ trades.filter (InBucket pool tf b), decide (Recent y.now r') = true := by
          intro r' hr'
          by_contra hold
          exact hsplit htf.symm ⟨⟨r, hmem, of_decide_eq_true hrecent⟩, r', hr', by simpa using hold⟩
        rw [List.filter_eq_self.mpr hall]
  · rw [if_neg htf]
    exact hright

/-- A run whose cutoff splits a bucket leaves its candle short. -/
theorem rebuild_short (h : Settled trades pool tf b y) (htf : y.tf = tf)
    (hsplit : Splits (trades.filter (InBucket pool tf b)) y.now) :
    ¬ ∃ k, rebuildCandles candles y pool tf b = some k ∧
      Summarises (trades.filter (InBucket pool tf b)) k := by
  intro hx
  obtain ⟨k, hk, hsum⟩ := hx
  obtain ⟨⟨r, hr, hrecent⟩, r', hr', hold⟩ := hsplit
  have hpart := partition_settled h htf
  have hmem : r ∈ y.partition y.table.asc pool b :=
    hpart.mem_iff.mpr (List.mem_filter.mpr ⟨hr, decide_eq_true hrecent⟩)
  obtain ⟨k', hk'⟩ := Option.isSome_iff_exists.mp (agg_isSome.mpr (List.ne_nil_of_mem hmem))
  unfold rebuildCandles at hk
  rw [if_pos htf.symm, hk', Option.some_or, Option.some.injEq] at hk
  subst hk
  have hvolume := ((agg_summarises hk').perm hpart).v.symm.trans hsum.v
  exact hold (filter_eq_of_sum hvolume r' hr')

theorem rebuildAll_append {xs ys : List Rebuild} :
    rebuildAll candles (xs ++ ys) = rebuildAll (rebuildAll candles xs) ys := by
  simp [rebuildAll, List.foldl_append]

/-- A schedule without a cutoff that splits the bucket leaves its candle right. -/
theorem rebuildAll_right {later : List Rebuild} (h : ∀ y ∈ later, Settled trades pool tf b y)
    (hsplit : ∀ y ∈ later, y.tf = tf → ¬ Splits (trades.filter (InBucket pool tf b)) y.now)
    (hright : ∃ k, candles pool tf b = some k ∧ Summarises (trades.filter (InBucket pool tf b)) k) :
    ∃ k, rebuildAll candles later pool tf b = some k ∧
      Summarises (trades.filter (InBucket pool tf b)) k := by
  induction later generalizing candles with
  | nil => exact hright
  | cons y later ih =>
      refine @ih (rebuildCandles candles y) (fun z hz => h z (List.mem_cons_of_mem _ hz))
        (fun z hz => hsplit z (List.mem_cons_of_mem _ hz)) ?_
      exact rebuild_right (h y List.mem_cons_self) (hsplit y List.mem_cons_self) hright

/-- A bucket ends where the next one starts. -/
theorem bucket_le (tf : Timeframe) (ts : Int) : tf.bucket ts ≤ ts := by
  unfold Timeframe.bucket
  exact Int.ediv_mul_le ts tf.length_pos.ne'

/-- After a run with the whole bucket inside its look-back, the candle of a closed bucket is right
and stays so exactly when no later run's cutoff falls between two of the bucket's trades. -/
theorem candle_stays_right_iff (hincreasing : (pre ++ x :: post).Pairwise (·.now < ·.now))
    (hpresent : ∀ y ∈ pre ++ x :: post, b + tf.length ≤ y.now → Settled trades pool tf b y)
    (htrades : trades.filter (InBucket pool tf b) ≠ []) (htf : x.tf = tf)
    (hclosed : b + tf.length ≤ x.now) (hinside : x.now - lookBack < b) :
    StaysRight (trades.filter (InBucket pool tf b)) pool tf b
      (rebuildAll candles (pre ++ [x])) post ↔
      ∀ y ∈ post, y.tf = tf → ¬ Splits (trades.filter (InBucket pool tf b)) y.now := by
  have hlater : ∀ y ∈ post, Settled trades pool tf b y := by
    intro y hy
    have hnow := (List.pairwise_cons.mp (List.pairwise_append.mp hincreasing).2.1).1 y hy
    exact hpresent y (by simp [hy]) (by omega)
  -- the whole bucket is newer than the cutoff of `x`
  have hx : ∃ k, rebuildAll candles (pre ++ [x]) pool tf b = some k ∧
      Summarises (trades.filter (InBucket pool tf b)) k := by
    have hpart := partition_settled (hpresent x (by simp) hclosed) htf
    have hall : ∀ r ∈ trades.filter (InBucket pool tf b), decide (Recent x.now r) = true := by
      intro r hr
      obtain ⟨-, hbucket⟩ := of_decide_eq_true (List.mem_filter.mp hr).2
      have hstart := bucket_le tf r.ts
      refine decide_eq_true ?_
      unfold Recent
      omega
    rw [List.filter_eq_self.mpr hall] at hpart
    have hsome : x.partition x.table.asc pool b ≠ [] := by
      intro hnil
      rw [hnil, List.nil_perm] at hpart
      exact htrades hpart
    obtain ⟨k, hk⟩ := Option.isSome_iff_exists.mp (agg_isSome.mpr hsome)
    refine ⟨k, ?_, (agg_summarises hk).perm hpart⟩
    rw [rebuildAll_append]
    simp [rebuildAll, rebuildCandles, htf, hk]
  constructor
  · intro h y hy hytf hsplit
    obtain ⟨before, after, rfl⟩ := List.append_of_mem hy
    have hright := h.right (before ++ [y]) ⟨after, by simp⟩
    rw [rebuildAll_append] at hright
    exact rebuild_short (hlater y hy) hytf hsplit hright
  · intro h
    have hright : ∀ later, later <+: post → ∃ k,
        rebuildAll (rebuildAll candles (pre ++ [x])) later pool tf b = some k ∧
          Summarises (trades.filter (InBucket pool tf b)) k := by
      intro later hinit
      exact rebuildAll_right (fun y hy => hlater y (hinit.subset hy))
        (fun y hy => h y (hinit.subset hy)) hx
    refine ⟨hright, ?_⟩
    intro later hinit k k' hk hk'
    obtain ⟨k₁, hk₁, hsum⟩ := hx
    obtain ⟨k₂, hk₂, hsum'⟩ := hright later hinit
    obtain rfl := Option.some.inj (hk.symm.trans hk₁)
    obtain rfl := Option.some.inj (hk'.symm.trans hk₂)
    exact hsum.unique hsum'

end Schedule

/-! ### A sample -/

namespace Sample

/-- A trade of a pool in the first hour. -/
def trade (sig : String) (minute price : Int) : Trade where
  sig := sig
  pool := "pool"
  ts := minute * 60 * Timeframe.second
  priceQuote := price
  base := 1000000
  base_pos := by decide

/-- Two trades of one hour. -/
def trades : List Trade := [trade "first" 10 5, trade "second" 50 3]

def table : TableRead where
  asc := trades
  desc := trades.reverse
  asc_sorted := by decide
  desc_sorted := by decide
  perm := List.reverse_perm trades

/-- A run on the hour, some hours later, at a minute. -/
def run (hour minute : Int) : Rebuild where
  tf := .h1
  now := (hour * 60 + minute) * 60 * Timeframe.second
  table := table

theorem settled (y : Rebuild) (h : y.table = table) : Settled trades "pool" .h1 0 y := by
  unfold Settled
  rw [h]
  exact List.Perm.refl _

end Sample

/-- The first hour's candle, rebuilt while its first trade is just out of the look-back, loses that
trade. -/
theorem candle_cut :
    [Sample.run 1 0, Sample.run 48 30].Pairwise (·.now < ·.now) ∧
      (∀ y ∈ [Sample.run 1 0, Sample.run 48 30], Settled Sample.trades "pool" .h1 0 y) ∧
      ¬ StaysRight (Sample.trades.filter (InBucket "pool" .h1 0)) "pool" .h1 0
        (rebuildAll (fun _ _ _ => none) ([] ++ [Sample.run 1 0])) [Sample.run 48 30] := by
  refine ⟨by decide, ?_, ?_⟩
  · intro y hy
    refine Sample.settled y ?_
    simp only [List.mem_cons, List.not_mem_nil, or_false] at hy
    rcases hy with rfl | rfl <;> rfl
  · intro h
    obtain ⟨k, hk, hsum⟩ := h.right [Sample.run 48 30] List.prefix_rfl
    have hstored : rebuildAll (rebuildAll (fun _ _ _ => none) ([] ++ [Sample.run 1 0]))
      [Sample.run 48 30]
        "pool" .h1 0 = some ⟨3, 3, 3, 3, 1000000⟩ := by decide +kernel
    obtain rfl := Option.some.inj (hk.symm.trans hstored)
    have hvolume := hsum.v
    revert hvolume
    decide +kernel

/-- Rebuilt an hour later, with all of it still inside the look-back. -/
theorem candle_stays_right_iff_sample :
    StaysRight (Sample.trades.filter (InBucket "pool" .h1 0)) "pool" .h1 0
      (rebuildAll (fun _ _ _ => none) ([] ++ [Sample.run 1 0])) [Sample.run 2 0] := by
  have hpresent : ∀ y ∈ [] ++ Sample.run 1 0 :: [Sample.run 2 0],
    (0 : Int) + Timeframe.h1.length ≤ y.now →
      Settled Sample.trades "pool" .h1 0 y := by
    intro y hy _
    refine Sample.settled y ?_
    simp only [List.nil_append, List.mem_cons, List.not_mem_nil, or_false] at hy
    rcases hy with rfl | rfl <;> rfl
  refine (candle_stays_right_iff (by decide) hpresent (by decide) rfl (by decide)
    (by decide)).mpr ?_
  intro y hy _
  obtain rfl := List.mem_singleton.mp hy
  intro h
  obtain ⟨-, r, hr, hold⟩ := h
  revert r
  decide

end IceMarkets.Indexer.Candles
