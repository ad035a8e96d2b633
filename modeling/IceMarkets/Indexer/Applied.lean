import IceMarkets.Indexer.Ingest

/-!
# IceMarkets.Indexer.Applied

What a sequence of ingestions applied, event by event, and what one application does.

`applyEvent_ok` reads the cases of `applyEvent` once: each table gets the row the event
offers, if it offers one, and every row of `commodities` becomes what `CommodityRow.after`
says. A sequence of ingestions is a chain of such applications (`applies_ingestAll`), so
what is said of a run of the indexer is proved by induction on that chain.
-/

namespace IceMarkets.Indexer.Ingest

open KeyedTable

/-! ### Definitions -/

/-- A transaction handed over, with the accounts on chain at that time, or the reconciliation
the backfill and the server start. -/
inductive Ingestion
  | transaction (tx : EventTx) (states : List PoolUpsert)
  | reconcile (states : List PoolUpsert)

/-- A reconciliation that fails has written nothing. -/
def Ingestion.run (env : IngestEnv) (db : EventDb) : Ingestion → EventDb
  | transaction tx states => ingestTransaction env tx states db
  | reconcile states =>
      match reconcilePools env states db with
      | .ok db' => db'
      | .error _ => db

/-- The database after a sequence of ingestions. -/
def ingestAll (env : IngestEnv) (db : EventDb) (ings : List Ingestion) : EventDb :=
  ings.foldl (Ingestion.run env) db

/-- An event, its transaction, and the database it was applied to. -/
structure Applied where
  db : EventDb
  tx : EventTx
  ev : IcemarketsEvent
  deriving DecidableEq

/-- The applications of a list of events in turn. -/
def appliedEvents (env : IngestEnv) (tx : EventTx) : EventDb → List IcemarketsEvent → List Applied
  | _, [] => []
  | db, ev :: evs =>
      { db, tx, ev } ::
        match applyEvent env tx ev db with
        | .ok db' => appliedEvents env tx db' evs
        | .error _ => []

/-- The applications an ingestion keeps. -/
def Ingestion.applied (env : IngestEnv) (db : EventDb) : Ingestion → List Applied
  | transaction tx states =>
      match ingestEvents env tx states db with
      | .ok _ => if tx.failed then [] else appliedEvents env tx db tx.ordered
      | .error _ => []
  | reconcile _ => []

/-- The applications a sequence of ingestions keeps. -/
def appliedAll (env : IngestEnv) : EventDb → List Ingestion → List Applied
  | _, [] => []
  | db, ing :: ings => ing.applied env db ++ appliedAll env (ing.run env db) ings

/-! ### What one event does -/

namespace Applied

variable (a : Applied)

/-- The row an event offers `commodity_trades`. -/
def tradeOffer : Option CommodityTrade :=
  match a.ev with
  | .trade commodity user side usdc coin price spreadBps =>
      (a.db.symbolForCommodity commodity).map fun c =>
        tradeRowOf a.tx c.symbol user side usdc coin price spreadBps
  | _ => none

/-- The row an event offers `fee_claims`. -/
def claimOffer : Option FeeClaim :=
  match a.ev with
  | .feesClaimed pool source quoteAmount baseAmount =>
      (a.db.poolExists pool).map fun _ =>
        { pool, source, quoteAmount, baseAmount, sig := a.tx.signature }
  | _ => none

/-- The row an event offers `fee_splits`. -/
def splitOffer : Option FeeSplit :=
  match a.ev with
  | .feesSplit pool holders buyback protocol =>
      (a.db.poolExists pool).map fun _ =>
        { sig := a.tx.signature, pool, holders, buyback, protocol }
  | _ => none

/-- The row an event offers `buybacks`. -/
def buybackOffer : Option BuybackRow :=
  match a.ev with
  | .buyback coin coinAmount gldAmount iceBurned =>
      some { coinMint := coin, coinAmount, gldAmount, iceBurned, sig := a.tx.signature }
  | _ => none

/-- The trade an event adds: the row offered, where its key is new. -/
def newTrade : Option CommodityTrade :=
  a.tradeOffer.filter fun r => !a.db.commodityTrades.any (·.key = r.key)

end Applied

/-- What an event makes of a commodity's row. -/
def CommodityRow.after (a : Applied) (c : CommodityRow) : CommodityRow :=
  match a.ev with
  | .commodityCreated commodity symbol mint =>
      if c.symbol = symbol then { c with commodityPubkey := some commodity, mint } else c
  | .trade .. =>
      match a.newTrade with
      | some r => if c.symbol = r.commodity then c.trade r else c
      | none => c
  | .priceUpdated commodity price _ publishTime =>
      match a.db.symbolForCommodity commodity with
      | some c₀ =>
          if c.symbol = c₀.symbol then
            if ∀ t ∈ c.lastPublishTime, t ≤ publishTime then
              { c with lastPriceUsd := some price, lastPublishTime := some publishTime }
            else c
          else c
      | none => c
  | .statusChanged commodity status =>
      if c.commodityPubkey = some commodity then { c with status := statusText status } else c
  | _ => c

theorem CommodityRow.trade_symbol (c : CommodityRow) (r : CommodityTrade) :
    (c.trade r).symbol = c.symbol ∧ (c.trade r).commodityPubkey = c.commodityPubkey := by
  unfold CommodityRow.trade
  split <;> exact ⟨rfl, rfl⟩

/-- No event changes a row's symbol, and only its commodity's creation its address. -/
theorem CommodityRow.after_symbol (a : Applied) (c : CommodityRow) :
    (c.after a).symbol = c.symbol ∧ ((c.after a).commodityPubkey = c.commodityPubkey ∨
      ∃ commodity mint, a.ev = .commodityCreated commodity c.symbol mint ∧
        (c.after a).commodityPubkey = some commodity) := by
  unfold CommodityRow.after
  split
  · next hev =>
      split
      · next heq =>
          subst heq
          exact ⟨rfl, Or.inr ⟨_, _, hev, rfl⟩⟩
      · exact ⟨rfl, Or.inl rfl⟩
  · split
    · split
      · exact ⟨(c.trade_symbol _).1, Or.inl (c.trade_symbol _).2⟩
      · exact ⟨rfl, Or.inl rfl⟩
    · exact ⟨rfl, Or.inl rfl⟩
  · split
    · split_ifs <;> exact ⟨rfl, Or.inl rfl⟩
    · exact ⟨rfl, Or.inl rfl⟩
  · split_ifs <;> exact ⟨rfl, Or.inl rfl⟩
  · exact ⟨rfl, Or.inl rfl⟩

/-- The row of a symbol stays its row. -/
theorem find?_map_after {a : Applied} {rows : List CommodityRow} {symbol : String} :
    (rows.map (·.after a)).find? (·.symbol = symbol) =
      (rows.find? (·.symbol = symbol)).map (·.after a) := by
  rw [List.find?_map]
  have hsame : ((fun c : CommodityRow => decide (c.symbol = symbol)) ∘ (·.after a)) =
      fun c : CommodityRow => decide (c.symbol = symbol) := by
    funext c
    rw [Function.comp_apply, (c.after_symbol a).1]
  rw [hsame]

/-- What an application leaves of the tables. -/
structure AppliedEffect (a : Applied) (db' : EventDb) : Prop where
  commodityTrades : db'.commodityTrades =
    insertOption CommodityTrade.key a.db.commodityTrades a.tradeOffer
  feeClaims : db'.feeClaims = insertOption FeeClaim.key a.db.feeClaims a.claimOffer
  feeSplits : db'.feeSplits = insertOption FeeSplit.key a.db.feeSplits a.splitOffer
  buybacks : db'.buybacks = insertOption BuybackRow.key a.db.buybacks a.buybackOffer
  commodities : ∃ new : Option CommodityRow,
    db'.commodities = a.db.commodities.map (·.after a) ++ new.toList ∧ ∀ c ∈ new.toList,
    (∀ c₀ ∈ a.db.commodities, c₀.symbol ≠ c.symbol) ∧
      ∃ commodity mint, a.ev = .commodityCreated commodity c.symbol mint ∧
        c.commodityPubkey = some commodity ∧ c.status = "open" ∧ c.supplyOutstanding = 0 ∧
        c.reserveBalance = 0

section Effect

variable {env : IngestEnv} {db db' : EventDb} {tx : EventTx}

/-- The tables `upsertPool` leaves alone. -/
structure PoolsOnly (db db' : EventDb) : Prop where
  commodityTrades : db'.commodityTrades = db.commodityTrades
  feeClaims : db'.feeClaims = db.feeClaims
  feeSplits : db'.feeSplits = db.feeSplits
  buybacks : db'.buybacks = db.buybacks
  commodities : db'.commodities = db.commodities

theorem upsertPool_ok {p : PoolUpsert} {sig : Option String}
    (h : upsertPool env p sig db = .ok db') : PoolsOnly db db' := by
  unfold upsertPool at h
  split at h
  · cases h
    exact ⟨rfl, rfl, rfl, rfl, rfl⟩
  · split_ifs at h
    · cases h
    · cases h
      exact ⟨rfl, rfl, rfl, rfl, rfl⟩
    · cases h
      exact ⟨rfl, rfl, rfl, rfl, rfl⟩

/-- An event that offers no row and touches no commodity. -/
theorem AppliedEffect.of_poolsOnly {a : Applied} (h : PoolsOnly a.db db')
    (htrade : a.tradeOffer = none)
    (hclaim : a.claimOffer = none) (hsplit : a.splitOffer = none) (hbuyback : a.buybackOffer = none)
    (hafter : ∀ c : CommodityRow, c.after a = c) : AppliedEffect a db' where
  commodityTrades := by rw [h.commodityTrades, htrade, insertOption_none]
  feeClaims := by rw [h.feeClaims, hclaim, insertOption_none]
  feeSplits := by rw [h.feeSplits, hsplit, insertOption_none]
  buybacks := by rw [h.buybacks, hbuyback, insertOption_none]
  commodities := by
    refine ⟨none, ?_, by simp⟩
    rw [h.commodities, Option.toList_none, List.append_nil]
    exact ((List.map_congr_left fun c _ => hafter c).trans (List.map_id _)).symm

theorem applyCommodityCreated_ok {commodity symbol mint : String}
    (h : applyCommodityCreated env commodity symbol mint db = .ok db') :
    AppliedEffect ⟨db, tx, .commodityCreated commodity symbol mint⟩ db' := by
  -- a symbol without a row is no row's
  have hsame : (∀ c ∈ db.commodities, c.symbol ≠ symbol) →
      db.commodities.map (·.after ⟨db, tx, .commodityCreated commodity symbol mint⟩) =
        db.commodities := by
    intro hnone
    refine (List.map_congr_left ?_).trans (List.map_id _)
    intro c hc
    simp [CommodityRow.after, hnone c hc]
  unfold applyCommodityCreated at h
  by_cases hrow : db.commodities.any (·.symbol = symbol) = true
  · rw [if_pos hrow] at h
    split at h
    · cases h
    · cases h
      exact ⟨rfl, rfl, rfl, rfl, none, by simp [EventDb.updateCommodity, CommodityRow.after],
        by simp⟩
  · rw [if_neg hrow] at h
    have hnone : ∀ c ∈ db.commodities, c.symbol ≠ symbol := by
      intro c hc heq
      exact hrow (List.any_eq_true.mpr ⟨c, hc, decide_eq_true heq⟩)
    split at h
    · cases h
      exact ⟨rfl, rfl, rfl, rfl, none, by simp [hsame hnone], by simp⟩
    · split at h
      · cases h
      · cases h
        refine ⟨rfl, rfl, rfl, rfl, some _, by rw [hsame hnone, Option.toList_some], ?_⟩
        intro c hc
        obtain rfl := List.mem_singleton.mp hc
        exact ⟨hnone, commodity, mint, rfl, rfl, rfl, rfl, rfl⟩

theorem applyTrade_ok {r : CommodityTrade} {ev : IcemarketsEvent}
    (hev : ∃ commodity user side usdc coin price spreadBps,
      ev = .trade commodity user side usdc coin price spreadBps)
    (hoffer : (Applied.mk db tx ev).tradeOffer = some r) :
    AppliedEffect ⟨db, tx, ev⟩ (applyTrade r db) := by
  obtain ⟨commodity, user, side, usdc, coin, price, spreadBps, rfl⟩ := hev
  unfold applyTrade
  by_cases htaken : db.commodityTrades.any (·.key = r.key) = true
  · rw [if_pos htaken]
    have hnew : (Applied.mk db tx
        (.trade commodity user side usdc coin price spreadBps)).newTrade = none := by
      rw [Applied.newTrade, hoffer, Option.filter_some, htaken]
      rfl
    refine ⟨?_, rfl, rfl, rfl, none, ?_, by simp⟩
    · rw [hoffer, insertOption_some]
      exact (if_pos htaken).symm
    · simp [CommodityRow.after, hnew]
  · rw [if_neg htaken]
    have hnew : (Applied.mk db tx
        (.trade commodity user side usdc coin price spreadBps)).newTrade = some r := by
      rw [Applied.newTrade, hoffer, Option.filter_some, if_pos (by simpa using htaken)]
    refine ⟨?_, rfl, rfl, rfl, none, ?_, by simp⟩
    · rw [hoffer, insertOption_some]
      exact (if_neg htaken).symm
    · simp [CommodityRow.after, hnew, EventDb.updateCommodity]

/-- Invert an application. -/
theorem applyEvent_ok {ev : IcemarketsEvent} (h : applyEvent env tx ev db = .ok db') :
    AppliedEffect ⟨db, tx, ev⟩ db' := by
  cases ev with
  | commodityCreated commodity symbol mint => exact applyCommodityCreated_ok h
  | trade commodity user side usdc coin price spreadBps =>
      simp only [applyEvent] at h
      cases hc : db.symbolForCommodity commodity with
      | none =>
          rw [hc] at h
          cases h
          refine .of_poolsOnly ⟨rfl, rfl, rfl, rfl, rfl⟩
            (by simp [Applied.tradeOffer, hc]) rfl rfl rfl ?_
          intro c
          simp [CommodityRow.after, Applied.newTrade, Applied.tradeOffer, hc]
      | some c =>
          rw [hc] at h
          cases h
          exact applyTrade_ok ⟨_, _, _, _, _, _, _, rfl⟩ (by simp [Applied.tradeOffer, hc])
  | priceUpdated commodity price conf publishTime =>
      simp only [applyEvent] at h
      cases hc : db.symbolForCommodity commodity with
      | none =>
          rw [hc] at h
          cases h
          exact .of_poolsOnly ⟨rfl, rfl, rfl, rfl, rfl⟩ rfl rfl rfl rfl fun c => by
            simp [CommodityRow.after, hc]
      | some c =>
          rw [hc] at h
          cases h
          exact ⟨rfl, rfl, rfl, rfl, none, by
            simp [applyPriceUpdated, EventDb.updateCommodity, CommodityRow.after, hc], by simp⟩
  | statusChanged commodity status =>
      cases h
      exact ⟨rfl, rfl, rfl, rfl, none, by simp [applyStatusChanged, CommodityRow.after], by simp⟩
  | poolRegistered pool baseMint quoteMint commodity feeBps =>
      exact .of_poolsOnly (upsertPool_ok h) rfl rfl rfl rfl fun c => rfl
  | feesClaimed pool source quoteAmount baseAmount =>
      simp only [applyEvent] at h
      cases hp : db.poolExists pool with
      | none =>
          rw [hp] at h
          cases h
          exact .of_poolsOnly ⟨rfl, rfl, rfl, rfl, rfl⟩ rfl
            (by simp [Applied.claimOffer, hp]) rfl rfl
            fun c => rfl
      | some p =>
          rw [hp] at h
          cases h
          exact ⟨rfl, by simp [Applied.claimOffer, hp], rfl, rfl, none,
            by simp [CommodityRow.after], by simp⟩
  | feesSplit pool holders buyback protocol =>
      simp only [applyEvent] at h
      cases hp : db.poolExists pool with
      | none =>
          rw [hp] at h
          cases h
          exact .of_poolsOnly ⟨rfl, rfl, rfl, rfl, rfl⟩ rfl rfl
            (by simp [Applied.splitOffer, hp]) rfl
            fun c => rfl
      | some p =>
          rw [hp] at h
          cases h
          exact ⟨rfl, rfl, by simp [Applied.splitOffer, hp], rfl, none,
            by simp [CommodityRow.after], by simp⟩
  | migrationRecorded pool dammPool =>
      simp only [applyEvent] at h
      refine .of_poolsOnly ?_ rfl rfl rfl rfl fun c => rfl
      split at h <;> cases h <;> exact ⟨rfl, rfl, rfl, rfl, rfl⟩
  | epochOpened pool index total holders =>
      simp only [applyEvent] at h
      refine .of_poolsOnly ?_ rfl rfl rfl rfl fun c => rfl
      split at h
      · cases h
        exact ⟨rfl, rfl, rfl, rfl, rfl⟩
      · cases h
        unfold applyEpochOpened
        dsimp only
        split <;> exact ⟨rfl, rfl, rfl, rfl, rfl⟩
  | payout pool epoch wallet coinMint amount payoutKind =>
      simp only [applyEvent] at h
      refine .of_poolsOnly ?_ rfl rfl rfl rfl fun c => rfl
      split at h
      · cases h
        exact ⟨rfl, rfl, rfl, rfl, rfl⟩
      · split at h
        · cases h
          exact ⟨rfl, rfl, rfl, rfl, rfl⟩
        · cases h
          unfold applyPayout
          dsimp only
          split_ifs <;> exact ⟨rfl, rfl, rfl, rfl, rfl⟩
  | epochFinalized pool index merkleRoot remainder =>
      cases h
      exact .of_poolsOnly ⟨rfl, rfl, rfl, rfl, rfl⟩ rfl rfl rfl rfl fun c => rfl
  | buyback coin coinAmount gldAmount iceBurned =>
      cases h
      exact ⟨rfl, rfl, rfl, rfl, none, by simp [CommodityRow.after], by simp⟩

theorem reconcilePools_ok {states : List PoolUpsert} (h : reconcilePools env states db = .ok db') :
    PoolsOnly db db' := by
  unfold reconcilePools at h
  generalize states.filter _ = l at h
  induction l generalizing db with
  | nil =>
      cases h
      exact ⟨rfl, rfl, rfl, rfl, rfl⟩
  | cons st l ih =>
      rw [List.foldlM_cons] at h
      obtain ⟨db₁, hst, h⟩ := bind_eq_ok.mp h
      have h1 := upsertPool_ok hst
      have h2 := ih h
      exact ⟨h2.commodityTrades.trans h1.commodityTrades, h2.feeClaims.trans h1.feeClaims,
        h2.feeSplits.trans h1.feeSplits, h2.buybacks.trans h1.buybacks,
        h2.commodities.trans h1.commodities⟩

end Effect

/-! ### What a sequence of ingestions does -/

/-- A chain of applications, and of changes to `pools` between them. -/
inductive Applies : EventDb → List Applied → EventDb → Prop
  | nil (db : EventDb) : Applies db [] db
  | event {a : Applied} {as : List Applied} {db' db'' : EventDb} (head : AppliedEffect a db')
      (tail : Applies db' as db'') : Applies a.db (a :: as) db''
  | pools {as : List Applied} {db db' db'' : EventDb} (head : PoolsOnly db db')
      (tail : Applies db' as db'') : Applies db as db''

section Chain

variable {env : IngestEnv} {db db' db'' : EventDb} {as as' : List Applied}

theorem Applies.append (h : Applies db as db') (h' : Applies db' as' db'') :
    Applies db (as ++ as') db'' := by
  induction h with
  | nil _ => exact h'
  | event head _ ih => exact .event head (ih h')
  | pools head _ ih => exact .pools head (ih h')

theorem applies_events {tx : EventTx} {evs : List IcemarketsEvent}
    (h : evs.foldlM (fun db ev => applyEvent env tx ev db) db = .ok db') :
    Applies db (appliedEvents env tx db evs) db' := by
  induction evs generalizing db with
  | nil =>
      cases h
      exact .nil _
  | cons ev evs ih =>
      rw [List.foldlM_cons] at h
      obtain ⟨db₁, hev, h⟩ := bind_eq_ok.mp h
      rw [appliedEvents, hev]
      exact .event (applyEvent_ok hev) (ih h)

theorem applies_run (ing : Ingestion) : Applies db (ing.applied env db) (ing.run env db) := by
  cases ing with
  | transaction tx states =>
      cases h : ingestEvents env tx states db with
      | error message =>
          simp only [Ingestion.applied, Ingestion.run, ingestTransaction, h]
          exact .nil db
      | ok db' =>
          simp only [Ingestion.applied, Ingestion.run, ingestTransaction, h]
          unfold ingestEvents at h
          by_cases hfailed : tx.failed = true
          · rw [if_pos hfailed] at h ⊢
            cases h
            exact .nil db
          · rw [if_neg hfailed] at h ⊢
            obtain ⟨db₁, hevents, h⟩ := bind_eq_ok.mp h
            rw [← List.append_nil (appliedEvents env tx db tx.ordered)]
            refine (applies_events hevents).append ?_
            split at h
            · exact .pools (reconcilePools_ok h) (.nil db')
            · cases h
              exact .nil db'
  | reconcile states =>
      cases h : reconcilePools env states db with
      | error message =>
          simp only [Ingestion.applied, Ingestion.run, h]
          exact .nil db
      | ok db' =>
          simp only [Ingestion.applied, Ingestion.run, h]
          exact .pools (reconcilePools_ok h) (.nil db')

/-- A sequence of ingestions is the chain of what it applied. -/
theorem applies_ingestAll (ings : List Ingestion) :
    Applies db (appliedAll env db ings) (ingestAll env db ings) := by
  induction ings generalizing db with
  | nil => exact .nil db
  | cons ing ings ih => exact (applies_run ing).append ih

theorem mem_appliedEvents {tx : EventTx} {evs : List IcemarketsEvent} {a : Applied}
    (h : a ∈ appliedEvents env tx db evs) : a.tx = tx ∧ a.ev ∈ evs := by
  induction evs generalizing db with
  | nil => cases h
  | cons ev evs ih =>
      rw [appliedEvents] at h
      rcases List.mem_cons.mp h with rfl | h
      · exact ⟨rfl, List.mem_cons_self⟩
      · split at h
        · obtain ⟨htx, hev⟩ := ih h
          exact ⟨htx, List.mem_cons_of_mem _ hev⟩
        · cases h

/-- What an ingestion applied is an event of its transaction. -/
theorem mem_applied {ing : Ingestion} {a : Applied} (h : a ∈ ing.applied env db) :
    (∃ states, ing = .transaction a.tx states) ∧ a.tx.failed = false ∧ a.ev ∈ a.tx.ordered := by
  cases ing with
  | reconcile states => cases h
  | transaction tx states =>
      simp only [Ingestion.applied] at h
      split at h
      · split_ifs at h with hfailed
        · cases h
        · obtain ⟨rfl, hev⟩ := mem_appliedEvents h
          exact ⟨⟨states, rfl⟩, by simpa using hfailed, hev⟩
      · cases h

/-- What was applied is an event of a transaction that was ingested. -/
theorem mem_appliedAll {ings : List Ingestion} {a : Applied} (h : a ∈ appliedAll env db ings) :
    (∃ states, .transaction a.tx states ∈ ings) ∧ a.tx.failed = false ∧ a.ev ∈ a.tx.ordered := by
  induction ings generalizing db with
  | nil => cases h
  | cons ing ings ih =>
      rw [appliedAll] at h
      rcases List.mem_append.mp h with h | h
      · obtain ⟨⟨states, rfl⟩, hev⟩ := mem_applied h
        exact ⟨⟨states, List.mem_cons_self⟩, hev⟩
      · obtain ⟨⟨states, hmem⟩, h⟩ := ih h
        exact ⟨⟨states, List.mem_cons_of_mem _ hmem⟩, h⟩

end Chain

end IceMarkets.Indexer.Ingest
