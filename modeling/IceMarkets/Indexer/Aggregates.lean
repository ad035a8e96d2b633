import IceMarkets.Indexer.EventRows
import IceMarkets.Lib.Clamped

/-!
# IceMarkets.Indexer.Aggregates

The totals of a commodity's row, which every new trade moves and which are not let below
zero.

A total is a clamped running total over the trades in the order in which each was first
applied (`total_ingestAll`), and these are the emitted ones but for those it missed
(`arrivals_perm`). So a total depends on the order through the lowest point of the plain
running total, and on what was missed.
-/

namespace IceMarkets.Indexer.Ingest

open KeyedTable Clamped

/-! ### Definitions -/

/-- The two totals of a commodity's row. -/
inductive Column
  | supplyOutstanding
  | reserveBalance

namespace Column

def get (c : CommodityRow) : Column → Int
  | supplyOutstanding => c.supplyOutstanding
  | reserveBalance => c.reserveBalance

/-- What a trade changes of a total: coins of the supply, USDC of the reserve. -/
def change (r : CommodityTrade) (col : Column) : Int :=
  let amount := match col with
    | supplyOutstanding => r.coin
    | reserveBalance => r.usdc
  if r.side = 0 then amount else -amount

/-- The changes of a commodity's total that a list of trades makes. -/
def changes (col : Column) (symbol : String) (trades : List CommodityTrade) : List Int :=
  (trades.filter (·.commodity = symbol)).map (change · col)

end Column

/-- A commodity's total; zero where it has no row. -/
def EventDb.total (db : EventDb) (symbol : String) (col : Column) : Int :=
  ((db.commodities.find? (·.symbol = symbol)).map (Column.get · col)).getD 0

/-- The trades an ingestion sequence adds, in the order in which it adds them. -/
def arrivals (env : IngestEnv) (db : EventDb) (ings : List Ingestion) : List CommodityTrade :=
  (appliedAll env db ings).filterMap Applied.newTrade

/-- Two databases have the same total, and it is the initial one and the net of all trades where
that is not negative. -/
structure TotalsAgree (initial net total₁ total₂ : Int) : Prop where
  equal : total₁ = total₂
  net : 0 ≤ initial + net → total₁ = initial + net

/-- What the clamp adds to either order's total is the net of the trades it missed; or, where the
net of all is negative, both are as far from it. -/
def ClampsMatch (initial net : Int) (arrived₁ missed₁ arrived₂ missed₂ : List Int) : Prop :=
  if 0 ≤ initial + net then
    depth initial arrived₁ = missed₁.sum ∧ depth initial arrived₂ = missed₂.sum
  else depth initial arrived₁ - missed₁.sum = depth initial arrived₂ - missed₂.sum

/-- Neither order's running total goes below zero; or, where it ends there, both go equally low. -/
def NeitherBelow (initial net : Int) (arrived₁ arrived₂ : List Int) : Prop :=
  if 0 ≤ initial + net then 0 ≤ lowest initial arrived₁ ∧ 0 ≤ lowest initial arrived₂
  else lowest initial arrived₁ = lowest initial arrived₂

instance (initial net : Int) (arrived₁ arrived₂ : List Int) :
    Decidable (NeitherBelow initial net arrived₁ arrived₂) :=
  inferInstanceAs (Decidable (if 0 ≤ initial + net then _ ∧ _ else _ = _))

section Emitted

variable (base58 : Pubkey → String) (casing : Casing) (symbolOf : String → String)
  (env : IngestEnv) (db : EventDb) (txs : List ChainTx)

/-- Every trade was applied at least once to a database that has its commodity. -/
def TradesKnown (ings : List Ingestion) : Prop :=
  ∀ tx ∈ txs, ∀ e ∈ tx.emitted, (tx.tradeRow base58 symbolOf e).isSome →
    ∃ a ∈ appliedAll env db ings, a.tx = tx.eventTx base58 casing ∧ Carries base58 e a.ev ∧
      a.db.Knows base58 e

/-- Transactions with at most one trade of a commodity, trader and side, none of them stored. -/
structure Ingestible : Prop where
  signatures : (txs.map (·.signature)).Nodup
  trades : ∀ tx ∈ txs, ((tx.emitted.filterMap (tx.tradeRow base58 symbolOf)).map (·.key)).Nodup
  fresh : ∀ r ∈ db.commodityTrades, ∀ tx ∈ txs, r.sig ≠ tx.signature
  stored : db.Symbols symbolOf
  created : ∀ tx ∈ txs, tx.Symbols base58 symbolOf

/-- The emitted trades that an ingestion sequence never applied to a database with their
commodity. -/
def missed (ings : List Ingestion) : List CommodityTrade :=
  (expected (·.tradeRow base58 symbolOf) txs).filter (· ∉ arrivals env db ings)

/-- What all emitted trades together change of a total. -/
def emittedNet (symbol : String) (col : Column) : Int :=
  (col.changes symbol (expected (·.tradeRow base58 symbolOf) txs)).sum

/-- The totals of every commodity agree after two ingestion sequences. -/
def AggregatesAgree (ings₁ ings₂ : List Ingestion) : Prop :=
  ∀ symbol col, TotalsAgree (db.total symbol col) (emittedNet base58 symbolOf txs symbol col)
    ((ingestAll env db ings₁).total symbol col) ((ingestAll env db ings₂).total symbol col)

end Emitted

/-! ### One application -/

section Step

variable {a : Applied} {db' : EventDb} {symbol : String} {col : Column}

theorem Column.get_trade (c : CommodityRow) (r : CommodityTrade) (col : Column) :
    col.get (c.trade r) = clamp (col.get c) (col.change r) := by
  unfold CommodityRow.trade clamp
  cases col <;> simp only [Column.get, Column.change] <;> split <;> rfl

theorem Applied.newTrade_eq_none (h : ∀ commodity user side usdc coin price spreadBps,
    a.ev ≠ .trade commodity user side usdc coin price spreadBps) : a.newTrade = none := by
  unfold Applied.newTrade Applied.tradeOffer
  split
  · next hev => exact absurd hev (h _ _ _ _ _ _ _)
  · rfl

/-- Only a new trade of the commodity moves a total. -/
theorem Column.get_after (a : Applied) (c : CommodityRow) (col : Column) :
    col.get (c.after a) = match a.newTrade with
      | some r => if c.symbol = r.commodity then clamp (col.get c) (col.change r) else col.get c
      | none => col.get c := by
  unfold CommodityRow.after
  split
  · next hev =>
      rw [Applied.newTrade_eq_none (by simp [hev])]
      split <;> cases col <;> rfl
  · cases a.newTrade with
    | none => rfl
    | some r =>
        by_cases hsymbol : c.symbol = r.commodity
        · simp only [if_pos hsymbol]
          exact Column.get_trade c r col
        · simp only [if_neg hsymbol]
  · next hev =>
      rw [Applied.newTrade_eq_none (by simp [hev])]
      split
      · split_ifs <;> cases col <;> rfl
      · rfl
  · next hev =>
      rw [Applied.newTrade_eq_none (by simp [hev])]
      split_ifs <;> cases col <;> rfl
  · next h1 h2 h3 h4 => rw [Applied.newTrade_eq_none h2]

/-- A new trade is of a commodity with a row. -/
theorem Applied.exists_of_newTrade {r : CommodityTrade} (h : a.newTrade = some r) :
    ∃ c ∈ a.db.commodities, c.symbol = r.commodity := by
  unfold Applied.newTrade at h
  have hoffer := (Option.filter_eq_some_iff.mp h).1
  unfold Applied.tradeOffer at hoffer
  split at hoffer
  · obtain ⟨c, hc, rfl⟩ := Option.map_eq_some_iff.mp hoffer
    exact ⟨c, List.mem_of_find?_eq_some hc, rfl⟩
  · cases hoffer

/-- A commodity's total after an application. -/
theorem AppliedEffect.total (h : AppliedEffect a db') :
    db'.total symbol col = match a.newTrade with
      | some r => if symbol = r.commodity then clamp (a.db.total symbol col) (col.change r)
          else a.db.total symbol col
      | none => a.db.total symbol col := by
  obtain ⟨new, heq, hnew⟩ := h.commodities
  unfold EventDb.total
  rw [heq, List.find?_append, find?_map_after]
  cases hfind : a.db.commodities.find? (·.symbol = symbol) with
  | some c =>
      have hsymbol : c.symbol = symbol := by simpa using List.find?_some hfind
      simp only [Option.map_some, Option.some_or, Option.getD_some, Column.get_after, hsymbol]
  | none =>
      -- a row that is new starts at zero, and no trade is of a commodity without a row
      have hstart :
          (((new.toList.find? (·.symbol = symbol)).map (Column.get · col)).getD 0) = 0 := by
        cases hfresh : new.toList.find? (·.symbol = symbol) with
        | none => rfl
        | some c =>
            obtain ⟨-, _, _, -, -, -, hsupply, hreserve⟩ :=
              hnew c (List.mem_of_find?_eq_some hfresh)
            cases col
            · exact hsupply
            · exact hreserve
      simp only [Option.map_none, Option.none_or, Option.getD_none]
      rw [hstart]
      cases htrade : a.newTrade with
      | none => rfl
      | some r =>
          obtain ⟨c, hc, hsymbol⟩ := Applied.exists_of_newTrade htrade
          have hne : symbol ≠ r.commodity := by
            intro heq
            have := List.find?_eq_none.mp hfind c hc
            simp [hsymbol, heq] at this
          simp only [if_neg hne]

end Step

/-! ### Runs -/

section Runs

variable {env : IngestEnv} {db db' : EventDb} {ings : List Ingestion} {symbol : String}
  {col : Column}

/-- A total is the clamped running total over the new trades. -/
theorem total_of_applies {as : List Applied} (h : Applies db as db') :
    db'.total symbol col =
      (col.changes symbol (as.filterMap Applied.newTrade)).foldl clamp (db.total symbol col) := by
  induction h with
  | nil _ => rfl
  | @event a as db' db'' head _ ih =>
      rw [ih, head.total]
      cases htrade : a.newTrade with
      | none => rw [List.filterMap_cons_none htrade]
      | some r =>
          rw [List.filterMap_cons_some htrade]
          unfold Column.changes
          by_cases hsymbol : symbol = r.commodity
          · simp [hsymbol]
          · simp [hsymbol, Ne.symm hsymbol]
  | pools head _ ih =>
      rw [ih]
      unfold EventDb.total
      rw [head.commodities]

/-- No total is negative. -/
def EventDb.NonNegative (db : EventDb) : Prop :=
  ∀ c ∈ db.commodities, 0 ≤ c.supplyOutstanding ∧ 0 ≤ c.reserveBalance

theorem EventDb.NonNegative.total (h : db.NonNegative) : 0 ≤ db.total symbol col := by
  unfold EventDb.total
  cases hfind : db.commodities.find? (·.symbol = symbol) with
  | none => exact le_refl 0
  | some c =>
      obtain ⟨hsupply, hreserve⟩ := h c (List.mem_of_find?_eq_some hfind)
      cases col
      · exact hsupply
      · exact hreserve

/-- A total after any ingestion sequence: what the clamp adds is the depth below zero. -/
theorem total_ingestAll (h : db.NonNegative) :
    (ingestAll env db ings).total symbol col = db.total symbol col +
      (col.changes symbol (arrivals env db ings)).sum +
      depth (db.total symbol col) (col.changes symbol (arrivals env db ings)) := by
  rw [total_of_applies (applies_ingestAll ings)]
  exact foldl_clamp h.total _

end Runs

/-! ### What arrives -/

section Arrivals

variable {base58 : Pubkey → String} {casing : Casing} {symbolOf : String → String} {env : IngestEnv}
  {db db' : EventDb} {txs : List ChainTx} {ings : List Ingestion} {symbol : String} {col : Column}

/-- The table of trades grows by what arrives. -/
theorem commodityTrades_of_applies {as : List Applied} (h : Applies db as db') :
    db'.commodityTrades = db.commodityTrades ++ as.filterMap Applied.newTrade := by
  induction h with
  | nil _ => simp
  | @event a as db' db'' head _ ih =>
      rw [ih, head.commodityTrades]
      cases hoffer : a.tradeOffer with
      | none =>
          have hnew : a.newTrade = none := by simp [Applied.newTrade, hoffer]
          rw [insertOption_none, List.filterMap_cons_none hnew]
      | some r =>
          rw [insertOption_some]
          by_cases htaken : a.db.commodityTrades.any (·.key = r.key) = true
          · have hnew : a.newTrade = none := by simp only [Applied.newTrade, hoffer,
              Option.filter_some, htaken, Bool.not_true, Bool.false_eq_true, if_false]
            rw [List.filterMap_cons_none hnew]
            exact congrArg (· ++ _) (if_pos htaken)
          · have hnew : a.newTrade = some r := by
              rw [Applied.newTrade, hoffer, Option.filter_some, if_pos (by simpa using htaken)]
            rw [List.filterMap_cons_some hnew, List.append_cons]
            exact congrArg (· ++ _) (if_neg htaken)
  | pools head _ ih => rw [ih, head.commodityTrades]

/-- Where no trade is stored yet, each arrives when it is first applied. -/
theorem arrivals_eq (hings : Ingests base58 casing txs ings)
    (hfresh : ∀ r ∈ db.commodityTrades, ∀ tx ∈ txs, r.sig ≠ tx.signature) :
    arrivals env db ings =
      insertAll CommodityTrade.key [] ((appliedAll env db ings).filterMap Applied.tradeOffer) := by
  have happlies := @applies_ingestAll env db ings
  have htable := table_eq CommodityTrade.key (·.commodityTrades) Applied.tradeOffer
    (fun a db' h => h.commodityTrades) (fun db db' h => h.commodityTrades) happlies
  rw [commodityTrades_of_applies happlies, insertAll_of_apart, List.append_cancel_left_eq] at htable
  · exact htable
  · intro r hr r' hr' hkey
    obtain ⟨a, ha, hoffer⟩ := List.mem_filterMap.mp hr
    obtain ⟨tx, htx, heq, -⟩ := hings.of_applied ha
    have hsig : r.sig = tx.signature := by
      unfold Applied.tradeOffer at hoffer
      split at hoffer
      · obtain ⟨c, -, rfl⟩ := Option.map_eq_some_iff.mp hoffer
        simp [tradeRowOf, heq, ChainTx.eventTx]
      · cases hoffer
    refine hfresh r' hr' tx htx ?_
    rw [← hsig]
    exact (Prod.mk.inj hkey).1

theorem tradeRow_sig (tx : ChainTx) (e : Emitted) (r : CommodityTrade)
    (h : tx.tradeRow base58 symbolOf e = some r) : r.key.1 = tx.signature := by
  cases e <;> cases h
  rfl

/-- What arrives are emitted trades, each once, and the others were missed. -/
theorem arrivals_perm (h : Ingestible base58 symbolOf db txs)
    (hings : Ingests base58 casing txs ings) :
    (arrivals env db ings ++ missed base58 symbolOf env db txs ings).Perm
      (expected (·.tradeRow base58 symbolOf) txs) := by
  have tradeLaw := @tradeLaw base58 casing symbolOf
  have hkeys : ((expected (·.tradeRow base58 symbolOf) txs).map CommodityTrade.key).Nodup :=
    (nodup_expected_iff tradeRow_sig h.signatures).mpr h.trades
  have hexpected : (expected (·.tradeRow base58 symbolOf) txs).Nodup := hkeys.of_map
  have harrivals : (arrivals env db ings).Nodup := by
    rw [arrivals_eq hings h.fresh]
    exact (nodup_insertAll (by simp)).of_map
  have hmem : ∀ r ∈ arrivals env db ings, r ∈ expected (·.tradeRow base58 symbolOf) txs := by
    intro r hr
    rw [arrivals_eq hings h.fresh] at hr
    rcases mem_insertAll hr with hr | hr
    · cases hr
    · obtain ⟨a, ha, hra⟩ := List.mem_filterMap.mp hr
      obtain ⟨tx, htx, e, he, -, -, -, hrow⟩ :=
        tradeLaw.of_offer hings (hings.symbols h.stored h.created) ha hra
      exact mem_expected htx he hrow
  have hsame : (arrivals env db ings).Perm ((expected (·.tradeRow base58 symbolOf) txs).filter
      (· ∈ arrivals env db ings)) := by
    refine (List.perm_ext_iff_of_nodup harrivals (hexpected.filter _)).mpr fun r => ?_
    rw [List.mem_filter, decide_eq_true_eq]
    exact ⟨fun hr => ⟨hmem r hr, hr⟩, fun hr => hr.2⟩
  refine (hsame.append_right _).trans ?_
  have hsplit := List.filter_append_perm (· ∈ arrivals env db ings)
    (expected (·.tradeRow base58 symbolOf) txs)
  simpa [missed] using hsplit

theorem emittedNet_eq (h : Ingestible base58 symbolOf db txs)
    (hings : Ingests base58 casing txs ings) :
    emittedNet base58 symbolOf txs symbol col = (col.changes symbol (arrivals env db ings)).sum +
      (col.changes symbol (missed base58 symbolOf env db txs ings)).sum := by
  have hperm := ((@arrivals_perm _ _ _ env _ _ _ h hings).filter (·.commodity = symbol)).map
    (Column.change · col)
  unfold emittedNet Column.changes
  rw [← hperm.sum_eq, List.filter_append, List.map_append, List.sum_append]

/-- Where every trade was applied to a database with its commodity, none is missed. -/
theorem missed_eq_nil (h : Ingestible base58 symbolOf db txs)
    (hings : Ingests base58 casing txs ings)
    (hknown : TradesKnown base58 casing symbolOf env db txs ings) :
    missed base58 symbolOf env db txs ings = [] := by
  have tradeLaw := @tradeLaw base58 casing symbolOf
  have hperm := (tradeLaw.perm_iff CommodityTrade.key (·.1) tradeRow_sig
    h.signatures hings (hings.symbols h.stored h.created)).mpr ⟨h.trades, hknown⟩
  rw [← arrivals_eq hings h.fresh] at hperm
  refine List.filter_eq_nil_iff.mpr fun r hr => ?_
  simpa using hperm.mem_iff.mpr hr

end Arrivals

/-! ### Two sequences -/

section Main

variable {base58 : Pubkey → String} {casing : Casing} {symbolOf : String → String} {env : IngestEnv}
  {db : EventDb} {txs : List ChainTx} {ings₁ ings₂ : List Ingestion} {symbol : String}
  {col : Column}

/-- Two totals agree exactly when their clamps match. -/
theorem totalsAgree_iff (hdb : db.NonNegative) (h : Ingestible base58 symbolOf db txs)
    (hings₁ : Ingests base58 casing txs ings₁) (hings₂ : Ingests base58 casing txs ings₂) :
    TotalsAgree (db.total symbol col) (emittedNet base58 symbolOf txs symbol col)
        ((ingestAll env db ings₁).total symbol col) ((ingestAll env db ings₂).total symbol col) ↔
      ClampsMatch (db.total symbol col) (emittedNet base58 symbolOf txs symbol col)
        (col.changes symbol (arrivals env db ings₁))
        (col.changes symbol (missed base58 symbolOf env db txs ings₁))
        (col.changes symbol (arrivals env db ings₂))
        (col.changes symbol (missed base58 symbolOf env db txs ings₂)) := by
  have hnet₁ := @emittedNet_eq _ _ _ env _ _ _ symbol col h hings₁
  have hnet₂ := @emittedNet_eq _ _ _ env _ _ _ symbol col h hings₂
  rw [total_ingestAll hdb, total_ingestAll hdb]
  unfold ClampsMatch
  by_cases hnet : 0 ≤ db.total symbol col + emittedNet base58 symbolOf txs symbol col
  · rw [if_pos hnet]
    constructor
    · intro hx
      obtain ⟨hequal, htotal⟩ := hx
      have htotal := htotal hnet
      exact ⟨by omega, by omega⟩
    · intro hx
      obtain ⟨h₁, h₂⟩ := hx
      exact ⟨by omega, fun _ => by omega⟩
  · rw [if_neg hnet]
    constructor
    · intro hx
      obtain ⟨hequal, -⟩ := hx
      omega
    · intro hdiff
      exact ⟨by omega, fun h => absurd h hnet⟩

/-- Where neither order misses a trade, clamps match when neither goes below zero. -/
theorem clampsMatch_iff {initial net : Int} {arrived₁ arrived₂ : List Int}
    (hnet₁ : arrived₁.sum = net) (hnet₂ : arrived₂.sum = net) :
    ClampsMatch initial net arrived₁ [] arrived₂ [] ↔
      NeitherBelow initial net arrived₁ arrived₂ := by
  unfold ClampsMatch NeitherBelow
  simp only [List.sum_nil, sub_zero, depth_eq_zero_iff]
  by_cases hnet : 0 ≤ initial + net
  · rw [if_pos hnet, if_pos hnet]
  · have hneg := not_le.mp hnet
    rw [if_neg hnet, if_neg hnet, depth_of_neg (by rwa [hnet₁]), depth_of_neg (by rwa [hnet₂]),
      neg_inj]

/-- The totals agree after two ingestion sequences of the transactions exactly when, for each
total, the clamps match. Where no trade is missed, that is when neither order's running total
goes below zero; or, where the net of all is negative, when both go equally low. -/
theorem aggregates_agree_iff (hdb : db.NonNegative) (h : Ingestible base58 symbolOf db txs)
    (hings₁ : Ingests base58 casing txs ings₁) (hings₂ : Ingests base58 casing txs ings₂) :
    (AggregatesAgree base58 symbolOf env db txs ings₁ ings₂ ↔
      ∀ symbol col, ClampsMatch (db.total symbol col) (emittedNet base58 symbolOf txs symbol col)
        (col.changes symbol (arrivals env db ings₁))
        (col.changes symbol (missed base58 symbolOf env db txs ings₁))
        (col.changes symbol (arrivals env db ings₂))
        (col.changes symbol (missed base58 symbolOf env db txs ings₂))) ∧
    (TradesKnown base58 casing symbolOf env db txs ings₁ →
      TradesKnown base58 casing symbolOf env db txs ings₂ →
      (AggregatesAgree base58 symbolOf env db txs ings₁ ings₂ ↔
        ∀ symbol col, NeitherBelow (db.total symbol col)
          (emittedNet base58 symbolOf txs symbol col)
          (col.changes symbol (arrivals env db ings₁))
          (col.changes symbol (arrivals env db ings₂)))) := by
  refine ⟨forall₂_congr fun _ _ => totalsAgree_iff hdb h hings₁ hings₂, ?_⟩
  intro hknown₁ hknown₂
  refine forall₂_congr fun symbol col => ?_
  have hnil₁ := missed_eq_nil h hings₁ hknown₁
  have hnil₂ := missed_eq_nil h hings₂ hknown₂
  have hnet₁ := @emittedNet_eq _ _ _ env _ _ _ symbol col h hings₁
  have hnet₂ := @emittedNet_eq _ _ _ env _ _ _ symbol col h hings₂
  rw [totalsAgree_iff hdb h hings₁ hings₂, hnil₁, hnil₂]
  rw [hnil₁] at hnet₁
  rw [hnil₂] at hnet₂
  exact clampsMatch_iff (by simpa [Column.changes] using hnet₁.symm)
    (by simpa [Column.changes] using hnet₂.symm)

end Main

/-! ### A sample -/

namespace Sample

/-- A commodity with a supply and a reserve. -/
def gold (supply reserve : Int) : CommodityRow where
  symbol := "GLD"
  mint := "mint"
  commodityPubkey := some "11111111111111111111111111111111"
  oracleKind := some 0
  status := "open"
  supplyOutstanding := supply
  reserveBalance := reserve
  lastPriceUsd := none
  lastPublishTime := none

def market (supply reserve : Int) : EventDb := { db with commodities := [gold supply reserve] }

def trade (side : PegDesk.Side) : PegDesk.Trade where
  commodity := Pubkey.default
  user := Pubkey.default
  side := side
  usdc := 2000
  coin := 1000
  price := 200000000
  spreadBps := 50

/-- The purchase of 1000 coin units. -/
def buy : ChainTx := { tx with signature := "buy", emitted := [.trade (trade .buy)] }

/-- Their sale. -/
def sell : ChainTx := { tx with signature := "sell", emitted := [.trade (trade .sell)] }

def ingest (tx : ChainTx) : Ingestion := .transaction (tx.eventTx base58 ⟨false, false⟩) []

def tradeEvent (side : Int) : IcemarketsEvent :=
  .trade "11111111111111111111111111111111" "11111111111111111111111111111111" side 2000 1000
    200000000 50

/-- The row of a trade. -/
def tradeRow (sig : String) (side : Int) : CommodityTrade where
  sig := sig
  commodity := "GLD"
  ts := 1000
  side := side
  usdc := 2000
  coin := 1000
  price := 200000000
  spreadBps := 50
  trader := "11111111111111111111111111111111"

theorem ingestible (supply reserve : Int) :
    Ingestible base58 (fun _ => "GLD") (market supply reserve) [buy, sell] where
  signatures := by decide
  trades := by decide
  fresh := by
    intro r hr
    cases hr
  stored := by
    intro c hc p _
    obtain rfl := List.mem_singleton.mp hc
    rfl
  created := by
    intro t ht e he p symbol mint hcarries
    simp only [List.mem_cons, List.not_mem_nil, or_false] at ht
    rcases ht with rfl | rfl <;>
    · obtain rfl := List.mem_singleton.mp he
      cases hcarries

theorem ingests {ings : List Ingestion} (h : ∀ ing ∈ ings, ing = ingest buy ∨ ing = ingest sell) :
    Ingests base58 ⟨false, false⟩ [buy, sell] ings := by
  intro tx states hmem
  rcases h _ hmem with heq | heq
  · exact ⟨buy, by simp, by cases heq; rfl⟩
  · exact ⟨sell, by simp, by cases heq; rfl⟩

end Sample

/-- A sale ingested before the purchase that funded it leaves the purchase's supply. -/
theorem sale_before_purchase :
    ¬ AggregatesAgree Sample.base58 (fun _ => "GLD") Sample.env (Sample.market 0 0)
      [Sample.buy, Sample.sell] [Sample.ingest Sample.buy, Sample.ingest Sample.sell]
      [Sample.ingest Sample.sell, Sample.ingest Sample.buy] := by
  intro h
  have hequal := (h "GLD" .supplyOutstanding).equal
  revert hequal
  decide +kernel

/-- With enough outstanding the order does not matter, nor that the sale is delivered twice. -/
theorem aggregates_agree_iff_sample :
    AggregatesAgree Sample.base58 (fun _ => "GLD") Sample.env (Sample.market 5000 9000)
      [Sample.buy, Sample.sell] [Sample.ingest Sample.buy, Sample.ingest Sample.sell]
      [Sample.ingest Sample.sell, Sample.ingest Sample.buy, Sample.ingest Sample.sell] := by
  have hdb : (Sample.market 5000 9000).NonNegative := by
    intro c hc
    obtain rfl := List.mem_singleton.mp hc
    decide
  have hrun : ∀ ings, (∀ t ∈ [(Sample.buy, (0 : Int)), (Sample.sell, 1)],
      ∃ a ∈ appliedAll Sample.env (Sample.market 5000 9000) ings,
        a.tx = t.1.eventTx Sample.base58 ⟨false, false⟩ ∧ a.ev = Sample.tradeEvent t.2 ∧
          (a.db.symbolForCommodity "11111111111111111111111111111111").isSome) →
      TradesKnown Sample.base58 ⟨false, false⟩ (fun _ => "GLD") Sample.env
        (Sample.market 5000 9000) [Sample.buy, Sample.sell] ings := by
    intro ings happlied t ht e he _
    simp only [List.mem_cons, List.not_mem_nil, or_false] at ht
    rcases ht with rfl | rfl <;> obtain rfl := List.mem_singleton.mp he
    · exact happlied (Sample.buy, 0) (by simp)
    · exact happlied (Sample.sell, 1) (by simp)
  refine ((aggregates_agree_iff hdb (Sample.ingestible 5000 9000) (Sample.ingests (by simp))
    (Sample.ingests (by simp))).2 (hrun _ (by decide +kernel)) (hrun _ (by decide +kernel))).mpr ?_
  have harrivals₁ : arrivals Sample.env (Sample.market 5000 9000)
      [Sample.ingest Sample.buy, Sample.ingest Sample.sell] =
        [Sample.tradeRow "buy" 0, Sample.tradeRow "sell" 1] := by decide +kernel
  have harrivals₂ : arrivals Sample.env (Sample.market 5000 9000)
      [Sample.ingest Sample.sell, Sample.ingest Sample.buy, Sample.ingest Sample.sell] =
        [Sample.tradeRow "sell" 1, Sample.tradeRow "buy" 0] := by decide +kernel
  have hexpected : expected (·.tradeRow Sample.base58 fun _ => "GLD") [Sample.buy, Sample.sell] =
      [Sample.tradeRow "buy" 0, Sample.tradeRow "sell" 1] := by decide +kernel
  intro symbol col
  rw [harrivals₁, harrivals₂, emittedNet, hexpected]
  by_cases hsymbol : symbol = "GLD"
  · subst hsymbol
    cases col <;> decide +kernel
  · have hnone : (Sample.market 5000 9000).total symbol col = 0 := by
      simp [EventDb.total, Sample.market, Sample.gold, Ne.symm hsymbol]
    have hchanges : ∀ rows : List CommodityTrade, (∀ r ∈ rows, r.commodity = "GLD") →
        col.changes symbol rows = [] := by
      intro rows hrows
      rw [Column.changes, List.filter_eq_nil_iff.mpr, List.map_nil]
      intro r hr
      simpa [hrows r hr] using Ne.symm hsymbol
    rw [hnone, hchanges _ (by simp [Sample.tradeRow]), hchanges _ (by simp [Sample.tradeRow])]
    decide

end IceMarkets.Indexer.Ingest
