import IceMarkets.Indexer.Applied
import IceMarkets.Indexer.Decoding

/-!
# IceMarkets.Indexer.EventRows

Which rows the event tables hold after the transactions of a chain were ingested, in any
order and any number of times.

Each table keeps the first row offered under a key, and the rows offered are those of the
emitted events (`KeyedTable.insertAll_perm_iff`). So a table holds one row for each emitted
event exactly when no two events of a transaction share its key, and every event was once
applied while its commodity or pool was known.
-/

namespace IceMarkets.Indexer.Ingest

open KeyedTable

/-! ### Definitions -/

/-- A transaction as the chain has it. -/
structure ChainTx where
  signature : String
  blockTime : Int
  feePayer : String
  emitted : List Emitted
  deriving Repr

section Chain

variable (base58 : Pubkey → String) (casing : Casing) (symbolOf : String → String)

/-- The transaction as it is ingested with its logs. -/
def ChainTx.eventTx (tx : ChainTx) : EventTx where
  signature := tx.signature
  blockTime := tx.blockTime
  feePayer := tx.feePayer
  failed := false
  events := some (decodeAnchorEvents programOrder fun program =>
    (tx.emitted.filter (·.program = program)).map (·.coded base58 casing))
  registersPool := tx.emitted.any fun e => e.name = "PoolRegistered"

/-- The row of `commodity_trades` an emitted event calls for. -/
def ChainTx.tradeRow (tx : ChainTx) : Emitted → Option CommodityTrade
  | .trade e => some {
      sig := tx.signature, commodity := symbolOf (base58 e.commodity), ts := tx.blockTime
      side := sideByte e.side, usdc := e.usdc.toNat, coin := e.coin.toNat, price := e.price.toNat
      spreadBps := e.spreadBps.toNat, trader := base58 e.user }
  | _ => none

/-- The row of `fee_claims` an emitted event calls for. -/
def ChainTx.claimRow (tx : ChainTx) : Emitted → Option FeeClaim
  | .feesClaimed e => some {
      pool := base58 e.pool, source := sourceByte e.source, quoteAmount := e.quoteAmount.toNat
      baseAmount := e.baseAmount.toNat, sig := tx.signature }
  | _ => none

/-- The row of `fee_splits` an emitted event calls for. -/
def ChainTx.splitRow (tx : ChainTx) : Emitted → Option FeeSplit
  | .feesSplit e => some {
      sig := tx.signature, pool := base58 e.pool, holders := e.holders.toNat
      buyback := e.buyback.toNat, protocol := e.protocol.toNat }
  | _ => none

/-- The row of `buybacks` an emitted event calls for. -/
def ChainTx.buybackRow (tx : ChainTx) : Emitted → Option BuybackRow
  | .buyback e => some {
      coinMint := base58 e.coin, coinAmount := e.coinAmount.toNat, gldAmount := e.usdcOut.toNat
      iceBurned := e.iceBurned.toNat, sig := tx.signature }
  | _ => none

/-- The rows of one table that the transactions call for. -/
def expected {ρ : Type} (row : ChainTx → Emitted → Option ρ) (txs : List ChainTx) : List ρ :=
  txs.flatMap fun tx => tx.emitted.filterMap (row tx)

/-- One row for each emitted event, with its amounts. -/
structure RowsExact (txs : List ChainTx) (db : EventDb) : Prop where
  commodityTrades : db.commodityTrades.Perm (expected (·.tradeRow base58 symbolOf) txs)
  feeClaims : db.feeClaims.Perm (expected (·.claimRow base58) txs)
  feeSplits : db.feeSplits.Perm (expected (·.splitRow base58) txs)
  buybacks : db.buybacks.Perm (expected (·.buybackRow base58) txs)

/-- No two events of a transaction share their table's key, and none is a `Buyback`. -/
structure KeysApart (tx : ChainTx) : Prop where
  trades : ((tx.emitted.filterMap (tx.tradeRow base58 symbolOf)).map (·.key)).Nodup
  claims : ((tx.emitted.filterMap (tx.claimRow base58)).map (·.key)).Nodup
  splits : ((tx.emitted.filterMap (tx.splitRow base58)).map (·.key)).Nodup
  no_buyback : ∀ e ∈ tx.emitted, ¬ e.IsBuyback

/-- The database has the commodity of a `Trade`, the pool of a `FeesClaimed` or `FeesSplit`. -/
def EventDb.Knows (db : EventDb) : Emitted → Prop
  | .trade e => (db.symbolForCommodity (base58 e.commodity)).isSome
  | .feesClaimed e => (db.poolExists (base58 e.pool)).isSome
  | .feesSplit e => (db.poolExists (base58 e.pool)).isSome
  | _ => True

/-- The event has a row in one of the tables the indexer fills. -/
def HasRow : Emitted → Prop
  | .trade _ => True
  | .feesClaimed _ => True
  | .feesSplit _ => True
  | _ => False

/-- Every event with a row was applied at least once to a database that knew what it is about. -/
def AppliedKnown (env : IngestEnv) (db : EventDb) (ings : List Ingestion)
    (txs : List ChainTx) : Prop :=
  ∀ tx ∈ txs, ∀ e ∈ tx.emitted, HasRow e → ∃ a ∈ appliedAll env db ings,
    a.tx = tx.eventTx base58 casing ∧ Carries base58 e a.ev ∧ a.db.Knows base58 e

/-- A commodity's address is derived from its symbol: one address has one symbol, in the
database and in what the programs emit. -/
def EventDb.Symbols (db : EventDb) : Prop :=
  ∀ c ∈ db.commodities, ∀ p, c.commodityPubkey = some p → symbolOf p = c.symbol

def ChainTx.Symbols (tx : ChainTx) : Prop :=
  ∀ e ∈ tx.emitted, ∀ p symbol mint, Carries base58 e (.commodityCreated p symbol mint) →
    symbolOf p = symbol

/-- Only these transactions are ingested. -/
def Ingests (txs : List ChainTx) (ings : List Ingestion) : Prop :=
  ∀ tx states, .transaction tx states ∈ ings → ∃ t ∈ txs, tx = t.eventTx base58 casing

end Chain

/-! ### Events and what is applied -/

section Applications

variable {base58 : Pubkey → String} {casing : Casing} {symbolOf : String → String} {env : IngestEnv}
  {db : EventDb} {txs : List ChainTx} {ings : List Ingestion}

/-- The events of a transaction are those it emitted, but for its `Buyback`s. -/
theorem carries_of_mem_ordered {tx : ChainTx} {ev : IcemarketsEvent}
    (h : ev ∈ (tx.eventTx base58 casing).ordered) :
    ∃ e ∈ tx.emitted, ¬ e.IsBuyback ∧ Carries base58 e ev := by
  unfold EventTx.ordered at h
  rw [(List.perm_insertionSort _ _).mem_iff] at h
  obtain ⟨program, -, h⟩ := List.mem_flatMap.mp h
  obtain ⟨raw, hraw, h⟩ := List.mem_filterMap.mp h
  obtain ⟨e, he, rfl⟩ := List.mem_map.mp hraw
  have hmem := List.mem_of_mem_filter he
  by_cases hbuyback : e.IsBuyback
  · cases e with
    | buyback b =>
        obtain ⟨message, herror⟩ := Emitted.untyped base58 casing b
        rw [herror] at h
        cases h
    | _ => exact absurd hbuyback id
  · obtain ⟨ev', htyped, hcarries⟩ := e.typed base58 casing hbuyback
    rw [htyped] at h
    obtain rfl := Option.some.inj h
    exact ⟨e, hmem, hbuyback, hcarries⟩

/-- What was applied is an emitted event of an ingested transaction. -/
theorem Ingests.of_applied (h : Ingests base58 casing txs ings) {a : Applied}
    (ha : a ∈ appliedAll env db ings) :
    ∃ tx ∈ txs, a.tx = tx.eventTx base58 casing ∧
      ∃ e ∈ tx.emitted, ¬ e.IsBuyback ∧ Carries base58 e a.ev := by
  obtain ⟨⟨states, hing⟩, -, hev⟩ := mem_appliedAll ha
  obtain ⟨tx, htx, heq⟩ := h _ _ hing
  rw [heq] at hev
  exact ⟨tx, htx, heq, carries_of_mem_ordered hev⟩

/-- The addresses in the database keep their symbols. -/
theorem applied_symbols {as : List Applied} {db' : EventDb} (h : Applies db as db')
    (has : ∀ a ∈ as, ∀ p symbol mint, a.ev = .commodityCreated p symbol mint → symbolOf p = symbol)
    (hdb : db.Symbols symbolOf) : ∀ a ∈ as, a.db.Symbols symbolOf := by
  induction h with
  | nil _ => simp
  | @event a as db' db'' head tail ih =>
      have hnext : db'.Symbols symbolOf := by
        obtain ⟨new, heq, hnew⟩ := head.commodities
        intro c hc p hp
        rw [heq, List.mem_append] at hc
        rcases hc with hc | hc
        · obtain ⟨c₀, hc₀, rfl⟩ := List.mem_map.mp hc
          obtain ⟨hsymbol, hkey | ⟨p', mint, hev, hkey⟩⟩ := c₀.after_symbol a
          · rw [hsymbol]
            exact hdb c₀ hc₀ p (hkey.symm.trans hp)
          · obtain rfl := Option.some.inj (hkey.symm.trans hp)
            rw [hsymbol]
            exact has a List.mem_cons_self _ _ _ hev
        · obtain ⟨-, p', mint, hev, hkey, -⟩ := hnew c hc
          obtain rfl := Option.some.inj (hkey.symm.trans hp)
          exact has a List.mem_cons_self _ _ _ hev
      intro a' ha'
      rcases List.mem_cons.mp ha' with rfl | ha'
      · exact hdb
      · exact ih (fun a ha => has a (List.mem_cons_of_mem _ ha)) hnext a' ha'
  | pools head _ ih =>
      refine ih has ?_
      unfold EventDb.Symbols
      rw [head.commodities]
      exact hdb

theorem Ingests.symbols (hings : Ingests base58 casing txs ings) (hdb : db.Symbols symbolOf)
    (htxs : ∀ tx ∈ txs, tx.Symbols base58 symbolOf) :
    ∀ a ∈ appliedAll env db ings, a.db.Symbols symbolOf := by
  refine applied_symbols (applies_ingestAll ings) ?_ hdb
  intro a ha p symbol mint hev
  obtain ⟨tx, htx, -, e, he, -, hcarries⟩ := hings.of_applied ha
  rw [hev] at hcarries
  exact htxs tx htx e he p symbol mint hcarries

/-- What an event offers a table is the row it calls for, where the database knows what the
event is about, and else nothing. -/
structure TableLaw (base58 : Pubkey → String) (casing : Casing)
    (symbolOf : String → String) {ρ : Type}
    (row : ChainTx → Emitted → Option ρ) (offer : Applied → Option ρ) : Prop where
  known : ∀ (a : Applied) (tx : ChainTx) (e : Emitted), a.tx = tx.eventTx base58 casing →
    Carries base58 e a.ev → a.db.Symbols symbolOf → a.db.Knows base58 e → offer a = row tx e
  unknown : ∀ (a : Applied) (e : Emitted), Carries base58 e a.ev → ¬ a.db.Knows base58 e →
    offer a = none
  hasRow : ∀ (tx : ChainTx) (e : Emitted), (row tx e).isSome → HasRow e

theorem symbol_of_find {p : String} {c : CommodityRow} (hdb : db.Symbols symbolOf)
    (h : db.symbolForCommodity p = some c) : c.symbol = symbolOf p := by
  have hkey := List.find?_some h
  exact (hdb c (List.mem_of_find?_eq_some h) p (by simpa using hkey)).symm

theorem tradeLaw : TableLaw base58 casing symbolOf
    (·.tradeRow base58 symbolOf) Applied.tradeOffer where
  known := by
    intro a tx e htx hcarries hsymbols hknows
    cases e with
    | trade e =>
        obtain ⟨c, hc⟩ := Option.isSome_iff_exists.mp hknows
        have hsymbol := symbol_of_find hsymbols hc
        simp only [Carries] at hcarries
        simp [Applied.tradeOffer, hcarries, hc, htx, tradeRowOf, ChainTx.tradeRow,
          ChainTx.eventTx, hsymbol]
    | commodityCreated e =>
        obtain ⟨symbol, -, hev⟩ := hcarries
        simp [Applied.tradeOffer, hev, ChainTx.tradeRow]
    | epochFinalized e =>
        obtain ⟨root, -, hev⟩ := hcarries
        simp [Applied.tradeOffer, hev, ChainTx.tradeRow]
    | buyback e =>
        obtain ⟨gldAmount, hev⟩ := hcarries
        simp [Applied.tradeOffer, hev, ChainTx.tradeRow]
    | _ e =>
        simp only [Carries] at hcarries
        simp [Applied.tradeOffer, hcarries, ChainTx.tradeRow]
  unknown := by
    intro a e hcarries hknows
    cases e with
    | trade e =>
        have hnone : a.db.symbolForCommodity (base58 e.commodity) = none :=
          Option.not_isSome_iff_eq_none.mp hknows
        simp only [Carries] at hcarries
        simp [Applied.tradeOffer, hcarries, hnone]
    | feesClaimed e =>
        simp only [Carries] at hcarries
        simp [Applied.tradeOffer, hcarries]
    | feesSplit e =>
        simp only [Carries] at hcarries
        simp [Applied.tradeOffer, hcarries]
    | _ => exact absurd trivial hknows
  hasRow := by
    intro tx e h
    cases e with
    | trade e => trivial
    | _ => cases h

theorem claimLaw : TableLaw base58 casing symbolOf (·.claimRow base58) Applied.claimOffer where
  known := by
    intro a tx e htx hcarries hsymbols hknows
    cases e with
    | feesClaimed e =>
        obtain ⟨p, hp⟩ := Option.isSome_iff_exists.mp hknows
        simp only [Carries] at hcarries
        simp [Applied.claimOffer, hcarries, hp, htx, ChainTx.claimRow, ChainTx.eventTx]
    | commodityCreated e =>
        obtain ⟨symbol, -, hev⟩ := hcarries
        simp [Applied.claimOffer, hev, ChainTx.claimRow]
    | epochFinalized e =>
        obtain ⟨root, -, hev⟩ := hcarries
        simp [Applied.claimOffer, hev, ChainTx.claimRow]
    | buyback e =>
        obtain ⟨gldAmount, hev⟩ := hcarries
        simp [Applied.claimOffer, hev, ChainTx.claimRow]
    | _ e =>
        simp only [Carries] at hcarries
        simp [Applied.claimOffer, hcarries, ChainTx.claimRow]
  unknown := by
    intro a e hcarries hknows
    cases e with
    | feesClaimed e =>
        have hnone : a.db.poolExists (base58 e.pool) = none :=
          Option.not_isSome_iff_eq_none.mp hknows
        simp only [Carries] at hcarries
        simp [Applied.claimOffer, hcarries, hnone]
    | trade e =>
        simp only [Carries] at hcarries
        simp [Applied.claimOffer, hcarries]
    | feesSplit e =>
        simp only [Carries] at hcarries
        simp [Applied.claimOffer, hcarries]
    | _ => exact absurd trivial hknows
  hasRow := by
    intro tx e h
    cases e with
    | feesClaimed e => trivial
    | _ => cases h

theorem splitLaw : TableLaw base58 casing symbolOf (·.splitRow base58) Applied.splitOffer where
  known := by
    intro a tx e htx hcarries hsymbols hknows
    cases e with
    | feesSplit e =>
        obtain ⟨p, hp⟩ := Option.isSome_iff_exists.mp hknows
        simp only [Carries] at hcarries
        simp [Applied.splitOffer, hcarries, hp, htx, ChainTx.splitRow, ChainTx.eventTx]
    | commodityCreated e =>
        obtain ⟨symbol, -, hev⟩ := hcarries
        simp [Applied.splitOffer, hev, ChainTx.splitRow]
    | epochFinalized e =>
        obtain ⟨root, -, hev⟩ := hcarries
        simp [Applied.splitOffer, hev, ChainTx.splitRow]
    | buyback e =>
        obtain ⟨gldAmount, hev⟩ := hcarries
        simp [Applied.splitOffer, hev, ChainTx.splitRow]
    | _ e =>
        simp only [Carries] at hcarries
        simp [Applied.splitOffer, hcarries, ChainTx.splitRow]
  unknown := by
    intro a e hcarries hknows
    cases e with
    | feesSplit e =>
        have hnone : a.db.poolExists (base58 e.pool) = none :=
          Option.not_isSome_iff_eq_none.mp hknows
        simp only [Carries] at hcarries
        simp [Applied.splitOffer, hcarries, hnone]
    | trade e =>
        simp only [Carries] at hcarries
        simp [Applied.splitOffer, hcarries]
    | feesClaimed e =>
        simp only [Carries] at hcarries
        simp [Applied.splitOffer, hcarries]
    | _ => exact absurd trivial hknows
  hasRow := by
    intro tx e h
    cases e with
    | feesSplit e => trivial
    | _ => cases h

/-- An element that a list of options yields once is at one place. -/
theorem eq_of_nodup_filterMap {α β : Type*} {f : α → Option β} {l : List α}
    (h : (l.filterMap f).Nodup)
    {x y : α} {r : β} (hx : x ∈ l) (hy : y ∈ l) (hfx : f x = some r)
    (hfy : f y = some r) : x = y := by
  induction l with
  | nil => cases hx
  | cons z l ih =>
      -- what `z` yields is yielded by no later element
      have hlater : ∀ w ∈ l, f z = some r → f w ≠ some r := by
        intro w hw hz hfw
        rw [List.filterMap_cons_some hz, List.nodup_cons] at h
        exact h.1 (List.mem_filterMap.mpr ⟨w, hw, hfw⟩)
      rcases List.mem_cons.mp hx with hxz | hxl
      · rcases List.mem_cons.mp hy with hyz | hyl
        · exact hxz.trans hyz.symm
        · exact absurd hfy (hlater y hyl (hxz ▸ hfx))
      · rcases List.mem_cons.mp hy with hyz | hyl
        · exact absurd hfx (hlater x hxl (hyz ▸ hfy))
        · exact ih (h.sublist ((List.sublist_cons_self z l).filterMap f)) hxl hyl

/-- Rows keyed by their transaction's signature are apart when each transaction's are. -/
theorem nodup_expected_iff {ρ κ : Type} {row : ChainTx → Emitted → Option ρ} {key : ρ → κ}
    {sig : κ → String} (hsig : ∀ tx e r, row tx e = some r → sig (key r) = tx.signature)
    (htxs : (txs.map (·.signature)).Nodup) :
    ((expected row txs).map key).Nodup ↔
      ∀ tx ∈ txs, ((tx.emitted.filterMap (row tx)).map key).Nodup := by
  unfold expected
  rw [List.map_flatMap, List.nodup_flatMap]
  refine ⟨fun h => h.1, fun h => ⟨h, ?_⟩⟩
  refine (List.pairwise_map.mp htxs).imp ?_
  intro tx tx' hne k hk hk'
  obtain ⟨r, hr, rfl⟩ := List.mem_map.mp hk
  obtain ⟨r', hr', hkey⟩ := List.mem_map.mp hk'
  obtain ⟨e, -, hr⟩ := List.mem_filterMap.mp hr
  obtain ⟨e', -, hr'⟩ := List.mem_filterMap.mp hr'
  refine hne ?_
  rw [← hsig tx e r hr, ← hkey, hsig tx' e' r' hr']

section Tables

variable {ρ κ : Type} [DecidableEq κ] {row : ChainTx → Emitted → Option ρ}
  {offer : Applied → Option ρ} (key : ρ → κ) (sig : κ → String)

/-- Every row offered is one called for. -/
theorem TableLaw.of_offer (law : TableLaw base58 casing symbolOf row offer)
    (hings : Ingests base58 casing txs ings)
    (hsymbols : ∀ a ∈ appliedAll env db ings, a.db.Symbols symbolOf) {a : Applied} {r : ρ}
    (ha : a ∈ appliedAll env db ings) (hr : offer a = some r) :
    ∃ tx ∈ txs, ∃ e ∈ tx.emitted, a.tx = tx.eventTx base58 casing ∧ Carries base58 e a.ev ∧
      a.db.Knows base58 e ∧ row tx e = some r := by
  obtain ⟨tx, htx, heq, e, he, -, hcarries⟩ := hings.of_applied ha
  by_cases hknows : a.db.Knows base58 e
  · refine ⟨tx, htx, e, he, heq, hcarries, hknows, ?_⟩
    rw [← law.known a tx e heq hcarries (hsymbols a ha) hknows]
    exact hr
  · rw [law.unknown a e hcarries hknows] at hr
    cases hr

theorem mem_expected {row : ChainTx → Emitted → Option ρ} {tx : ChainTx} {e : Emitted} {r : ρ}
    (htx : tx ∈ txs) (he : e ∈ tx.emitted) (hr : row tx e = some r) : r ∈ expected row txs :=
  List.mem_flatMap.mpr ⟨tx, htx, List.mem_filterMap.mpr ⟨e, he, hr⟩⟩

/-- A table holds exactly the rows called for when no two of a transaction share a key and each
was offered. -/
theorem TableLaw.perm_iff (law : TableLaw base58 casing symbolOf row offer)
    (hsig : ∀ tx e r, row tx e = some r → sig (key r) = tx.signature)
    (htxs : (txs.map (·.signature)).Nodup) (hings : Ingests base58 casing txs ings)
    (hsymbols : ∀ a ∈ appliedAll env db ings, a.db.Symbols symbolOf) :
    (insertAll key [] ((appliedAll env db ings).filterMap offer)).Perm (expected row txs) ↔
      (∀ tx ∈ txs, ((tx.emitted.filterMap (row tx)).map key).Nodup) ∧
      ∀ tx ∈ txs, ∀ e ∈ tx.emitted, (row tx e).isSome → ∃ a ∈ appliedAll env db ings,
        a.tx = tx.eventTx base58 casing ∧ Carries base58 e a.ev ∧ a.db.Knows base58 e := by
  rw [insertAll_perm_iff]
  · rw [@nodup_expected_iff txs _ _ row key sig hsig htxs]
    refine and_congr_right ?_
    intro hnodup
    constructor
    · intro h tx htx e he hrow
      obtain ⟨r, hr⟩ := Option.isSome_iff_exists.mp hrow
      obtain ⟨a, ha, hra⟩ := List.mem_filterMap.mp (h r (mem_expected htx he hr))
      obtain ⟨tx', htx', e', he', heq, hcarries, hknows, hr'⟩ := law.of_offer hings hsymbols ha hra
      -- the row's signature is its transaction's, and its key is one event's
      have hsame : tx' = tx := by
        refine List.inj_on_of_nodup_map htxs htx' htx ?_
        rw [← hsig tx' e' r hr', hsig tx e r hr]
      subst hsame
      have hevent := eq_of_nodup_filterMap ((hnodup tx' htx).of_map key) he' he hr' hr
      subst hevent
      exact ⟨a, ha, heq, hcarries, hknows⟩
    · intro h r hr
      obtain ⟨tx, htx, hr⟩ := List.mem_flatMap.mp hr
      obtain ⟨e, he, hr⟩ := List.mem_filterMap.mp hr
      obtain ⟨a, ha, heq, hcarries, hknows⟩ := h tx htx e he (by simp [hr])
      refine List.mem_filterMap.mpr ⟨a, ha, ?_⟩
      rw [law.known a tx e heq hcarries (hsymbols a ha) hknows, hr]
  · intro r hr
    obtain ⟨a, ha, hra⟩ := List.mem_filterMap.mp hr
    obtain ⟨tx, htx, e, he, -, -, -, hrow⟩ := law.of_offer hings hsymbols ha hra
    exact mem_expected htx he hrow

end Tables

/-- A table is what it was given. -/
theorem table_eq {ρ κ : Type} [DecidableEq κ] (key : ρ → κ) (get : EventDb → List ρ)
    (offer : Applied → Option ρ) {as : List Applied} {db' : EventDb}
    (hevent : ∀ a db', AppliedEffect a db' → get db' = insertOption key (get a.db) (offer a))
    (hpools : ∀ db db', PoolsOnly db db' → get db' = get db) (h : Applies db as db') :
    get db' = insertAll key (get db) (as.filterMap offer) := by
  induction h with
  | nil _ => simp
  | @event a as db' db'' head _ ih =>
      rw [ih, hevent a db' head, insertAll_filterMap_cons]
  | pools head _ ih => rw [ih, hpools _ _ head]

end Applications

section Main

variable {base58 : Pubkey → String} {casing : Casing} {symbolOf : String → String} {env : IngestEnv}
  {db : EventDb} {txs : List ChainTx} {ings : List Ingestion}

theorem buybackOffer_eq_none {a : Applied} {e : Emitted} (hkind : ¬ e.IsBuyback)
    (h : Carries base58 e a.ev) : a.buybackOffer = none := by
  cases e with
  | commodityCreated e =>
      obtain ⟨symbol, -, hev⟩ := h
      simp [Applied.buybackOffer, hev]
  | epochFinalized e =>
      obtain ⟨root, -, hev⟩ := h
      simp [Applied.buybackOffer, hev]
  | buyback e => exact absurd trivial hkind
  | _ e =>
      simp only [Carries] at h
      simp [Applied.buybackOffer, h]

/-- No `Buyback` is stored, so its table is right where none is emitted. -/
theorem buybacks_perm_iff (hings : Ingests base58 casing txs ings) (hempty : db.buybacks = []) :
    (ingestAll env db ings).buybacks.Perm (expected (·.buybackRow base58) txs) ↔
      ∀ tx ∈ txs, ∀ e ∈ tx.emitted, ¬ e.IsBuyback := by
  have htable : (ingestAll env db ings).buybacks = [] := by
    rw [table_eq BuybackRow.key (·.buybacks) Applied.buybackOffer (fun a db' h => h.buybacks)
      (fun db db' h => h.buybacks) (@applies_ingestAll env db ings)]
    have hnone : (appliedAll env db ings).filterMap Applied.buybackOffer = [] := by
      rw [List.filterMap_eq_nil_iff]
      intro a ha
      obtain ⟨tx, -, -, e, -, hkind, hcarries⟩ := hings.of_applied ha
      exact buybackOffer_eq_none hkind hcarries
    rw [hnone, insertAll_nil]
    exact hempty
  rw [htable, List.nil_perm]
  simp only [expected, List.flatMap_eq_nil_iff, List.filterMap_eq_nil_iff]
  refine forall₂_congr fun tx _ => forall₂_congr fun e _ => ?_
  cases e with
  | buyback e => simp [ChainTx.buybackRow, Emitted.IsBuyback]
  | _ => simp [ChainTx.buybackRow, Emitted.IsBuyback]

/-- The event tables hold exactly one row for each emitted event exactly when no two events of a
transaction share a key, none is a `Buyback`, and each was once applied while its commodity or
pool was known. -/
theorem eventRows_exact_iff (htxs : (txs.map (·.signature)).Nodup)
    (hings : Ingests base58 casing txs ings)
    (htrades : db.commodityTrades = []) (hclaims : db.feeClaims = []) (hsplits : db.feeSplits = [])
    (hbuybacks : db.buybacks = []) (hsymbols : db.Symbols symbolOf)
    (hcreated : ∀ tx ∈ txs, tx.Symbols base58 symbolOf) :
    RowsExact base58 symbolOf txs (ingestAll env db ings) ↔
      (∀ tx ∈ txs, KeysApart base58 symbolOf tx) ∧ AppliedKnown base58 casing env db ings txs := by
  have hchain := @applies_ingestAll env db ings
  have happlied : ∀ a ∈ appliedAll env db ings, a.db.Symbols symbolOf :=
    hings.symbols hsymbols hcreated
  have tradeLaw := @tradeLaw base58 casing symbolOf
  have claimLaw := @claimLaw base58 casing symbolOf
  have splitLaw := @splitLaw base58 casing symbolOf
  have htrade := tradeLaw.perm_iff CommodityTrade.key (·.1)
    (by intro tx e r h; cases e <;> cases h; rfl) htxs hings happlied
  have hclaim := claimLaw.perm_iff FeeClaim.key (·.1)
    (by intro tx e r h; cases e <;> cases h; rfl) htxs hings happlied
  have hsplit := splitLaw.perm_iff FeeSplit.key (·.1)
    (by intro tx e r h; cases e <;> cases h; rfl) htxs hings happlied
  rw [← htrades, ← table_eq CommodityTrade.key (·.commodityTrades) Applied.tradeOffer
    (fun a db' h => h.commodityTrades) (fun db db' h => h.commodityTrades) hchain] at htrade
  rw [← hclaims, ← table_eq FeeClaim.key (·.feeClaims) Applied.claimOffer
    (fun a db' h => h.feeClaims) (fun db db' h => h.feeClaims) hchain] at hclaim
  rw [← hsplits, ← table_eq FeeSplit.key (·.feeSplits) Applied.splitOffer
    (fun a db' h => h.feeSplits) (fun db db' h => h.feeSplits) hchain] at hsplit
  have hbuyback := @buybacks_perm_iff base58 casing env db txs ings hings hbuybacks
  constructor
  · intro h
    obtain ⟨hkeysT, hknownT⟩ := htrade.mp h.commodityTrades
    obtain ⟨hkeysC, hknownC⟩ := hclaim.mp h.feeClaims
    obtain ⟨hkeysS, hknownS⟩ := hsplit.mp h.feeSplits
    have hno := hbuyback.mp h.buybacks
    refine ⟨fun tx htx => ⟨hkeysT tx htx, hkeysC tx htx, hkeysS tx htx, hno tx htx⟩, ?_⟩
    intro tx htx e he hrow
    cases e with
    | trade e => exact hknownT tx htx _ he rfl
    | feesClaimed e => exact hknownC tx htx _ he rfl
    | feesSplit e => exact hknownS tx htx _ he rfl
    | _ => cases hrow
  · intro hx
    obtain ⟨hkeys, hknown⟩ := hx
    exact {
      commodityTrades := htrade.mpr ⟨fun tx htx => (hkeys tx htx).trades,
        fun tx htx e he hrow => hknown tx htx e he (tradeLaw.hasRow tx e hrow)⟩
      feeClaims := hclaim.mpr ⟨fun tx htx => (hkeys tx htx).claims,
        fun tx htx e he hrow => hknown tx htx e he (claimLaw.hasRow tx e hrow)⟩
      feeSplits := hsplit.mpr ⟨fun tx htx => (hkeys tx htx).splits,
        fun tx htx e he hrow => hknown tx htx e he (splitLaw.hasRow tx e hrow)⟩
      buybacks := hbuyback.mpr fun tx htx => (hkeys tx htx).no_buyback }

end Main

/-! ### A sample -/

namespace Sample

def base58 : Pubkey → String := fun _ => "11111111111111111111111111111111"

def env : IngestEnv where
  vaults := { dbcTokenVault := fun mint pool => mint ++ pool,
              dammTokenVault := fun mint pool => pool ++ mint }
  epochPda := fun pool index => pool ++ toString index
  registry := fun _ => none

/-- A pool registered before. -/
def pool : PoolRecord where
  dbcPool := "11111111111111111111111111111111"
  baseMint := "base"
  quoteMint := "coin"
  commodity := "GLD"
  feeBps := 100
  creator := "creator"
  baseVault := some "baseVault"
  quoteVault := some "quoteVault"
  dammPool := none
  dammBaseVault := none
  dammQuoteVault := none
  migratedAt := none
  registeredSig := none

def db : EventDb where
  commodities := []
  pools := [pool]
  commodityTrades := []
  prices := []
  feeClaims := []
  feeSplits := []
  buybacks := []
  epochs := []
  payouts := []
  merkleLeaves := []

def split (holders buyback protocol : UInt64) : FeeRouter.FeesSplit where
  pool := Pubkey.default
  holders := holders
  buyback := buyback
  protocol := protocol

/-- A claim of trading fees and one of surplus, in one transaction. -/
def tx : ChainTx where
  signature := "sig"
  blockTime := 1000
  feePayer := "payer"
  emitted := [.feesSplit (split 500 300 200), .feesSplit (split 50 30 20)]

/-- One split, for a witness. -/
def tx₁ : ChainTx := { tx with emitted := [.feesSplit (split 500 300 200)] }

end Sample

/-- The second of two splits of a pool in one transaction is never stored. -/
theorem second_split_lost :
    let db' := ingestAll Sample.env Sample.db
      [.transaction (Sample.tx.eventTx Sample.base58 ⟨false, false⟩) []]
    ¬ RowsExact Sample.base58 (fun _ => "GLD") [Sample.tx] db' := by
  intro db' h
  have hlength := h.feeSplits.length_eq
  revert hlength
  decide +kernel

/-- One split, ingested twice. -/
theorem eventRows_exact_iff_sample :
    let tx := Sample.tx₁.eventTx Sample.base58 ⟨false, false⟩
    RowsExact Sample.base58 (fun _ => "GLD") [Sample.tx₁]
      (ingestAll Sample.env Sample.db [.transaction tx [], .transaction tx []]) := by
  intro tx
  have hings : Ingests Sample.base58 ⟨false, false⟩ [Sample.tx₁]
      [.transaction tx [], .transaction tx []] := by
    intro tx' states h
    simp only [List.mem_cons, Ingestion.transaction.injEq, List.not_mem_nil, or_false, or_self] at h
    exact ⟨Sample.tx₁, List.mem_singleton_self _, h.1⟩
  have hcreated : ∀ t ∈ [Sample.tx₁], t.Symbols Sample.base58 fun _ => "GLD" := by
    intro t ht e he p symbol mint hcarries
    obtain rfl := List.mem_singleton.mp ht
    obtain rfl := List.mem_singleton.mp he
    cases hcarries
  refine (eventRows_exact_iff (by decide) hings rfl rfl rfl rfl
    (by intro c hc; cases hc) hcreated).mpr
    ⟨?_, ?_⟩
  · intro t ht
    obtain rfl := List.mem_singleton.mp ht
    refine ⟨by decide, by decide, by decide, ?_⟩
    intro e he
    obtain rfl := List.mem_singleton.mp he
    exact id
  · intro t ht e he _
    obtain rfl := List.mem_singleton.mp ht
    obtain rfl := List.mem_singleton.mp he
    refine ⟨⟨Sample.db, tx, .feesSplit "11111111111111111111111111111111" 500 300 200⟩, ?_,
      rfl, rfl, rfl⟩
    decide +kernel

end IceMarkets.Indexer.Ingest
