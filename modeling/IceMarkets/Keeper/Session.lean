import IceMarkets.Indexer.Aggregates
import IceMarkets.PegDesk.Run
import Mathlib.Tactic.IntervalCases

/-!
# IceMarkets.Keeper.Session

The session cycle (`apps/keeper/src/cycles/session.ts`) and the column it decides from.

`commodities.status` has two writers: the indexer, for a `StatusChanged` ingested while the
commodity's row has its address, and the cycle, once its own transaction is confirmed. It is
what the last of them wrote, whatever its place on the chain (`status_of_events`). So it is
the chain's status, and the cycle decides from the chain's status, exactly when the last
write sets what the latest transaction on the chain set.
-/

namespace IceMarkets.Keeper

open Indexer Indexer.Ingest PegDesk

/-! ### The cycle -/

/-- What a cycle takes from outside the database. -/
structure SessionEnv where
  /-- The market calendars, at the cycle's time. -/
  isSessionOpen : (sessionKind : Int) → Bool
  /-- The column `session_kind`, which nothing rewrites. -/
  sessionKind : (symbol : String) → Int
  bySymbol : (symbol : String) → Bool
  /-- Whether the transaction with `set_status` was sent and confirmed. -/
  sendWithPriority : (symbol : String) → (status : UInt8) → Bool

/-- A commodity as the cycle reads it. -/
structure ListedCommodity where
  symbol : String
  commodityPubkey : String
  status : UInt8
  sessionKind : Int
  deriving DecidableEq, Repr

/-- `case status when 'open' then 0 when 'closed' then 1 else 2 end`. -/
def statusByte (text : String) : UInt8 :=
  if text = "open" then statusOpen else if text = "closed" then statusClosed else statusHalted

def listCommodities (env : SessionEnv) (db : EventDb) : List ListedCommodity :=
  db.commodities.filterMap fun c => c.commodityPubkey.map fun commodityPubkey =>
    { symbol := c.symbol, commodityPubkey, status := statusByte c.status
      sessionKind := env.sessionKind c.symbol }

def updateCommodityStatus (symbol : String) (status : UInt8) (db : EventDb) : EventDb :=
  db.updateCommodity symbol fun c => { c with status := statusText status.toNat }

def desiredStatus (env : SessionEnv) (c : ListedCommodity) : UInt8 :=
  if env.isSessionOpen c.sessionKind then statusOpen else statusClosed

/-- What the cycle does about a commodity. -/
inductive SessionStep
  | halted
  | desired
  | unregistered
  | flip (status : UInt8)
  deriving DecidableEq, Repr

def sessionStep (env : SessionEnv) (c : ListedCommodity) : SessionStep :=
  if c.status = statusHalted then .halted
  else if c.status = desiredStatus env c then .desired
  else if env.bySymbol c.symbol = false then .unregistered
  else .flip (desiredStatus env c)

/-- The status a cycle has set on chain for a commodity it listed, and then writes. -/
def confirmedFlip (env : SessionEnv) (c : ListedCommodity) : Option UInt8 :=
  match sessionStep env c with
  | .flip status => if env.sendWithPriority c.symbol status then some status else none
  | _ => none

/-- The loop body of `runSessionCycle`. -/
def flipStatus (env : SessionEnv) (db : EventDb) (c : ListedCommodity) : EventDb :=
  match confirmedFlip env c with
  | some status => updateCommodityStatus c.symbol status db
  | none => db

def runSessionCycle (env : SessionEnv) (db : EventDb) : EventDb :=
  (listCommodities env db).foldl (flipStatus env) db

/-! ### Statuses on the chain and in the database -/

/-- A run of `set_status` on a commodity, each in a transaction of its own. -/
inductive StatusRun (key : Pubkey) : Commodity → List ChainTx → Commodity → Prop
  | nil (c : Commodity) : StatusRun key c [] c
  | cons {config : GlobalConfig} {authority : Pubkey} {c c' c'' : Commodity} {status : UInt8}
      {tx : ChainTx} {txs : List ChainTx}
      (head : handleSetStatus config authority c status = .ok c')
      (emitted : tx.emitted = [.statusChanged { commodity := key, status }])
      (tail : StatusRun key c' txs c'') : StatusRun key c (tx :: txs) c''

/-- What writes to the database: an ingestion, or a cycle at a commodity it listed, maybe before
other writes. -/
inductive SessionEvent
  | ingest (ing : Ingest.Ingestion)
  | commodity (senv : SessionEnv) (c : ListedCommodity)

def SessionEvent.run (env : IngestEnv) (db : EventDb) : SessionEvent → EventDb
  | ingest ing => ing.run env db
  | commodity senv c => flipStatus senv db c

def sessionAll (env : IngestEnv) (db : EventDb) (evs : List SessionEvent) : EventDb :=
  evs.foldl (SessionEvent.run env) db

def commodityRow (db : EventDb) (symbol : String) : Option CommodityRow :=
  db.commodities.find? (·.symbol = symbol)

/-- The status an event sets for a commodity. -/
def setting (key : String) : IcemarketsEvent → Option Int
  | .statusChanged commodity status => if commodity = key then some status else none
  | _ => none

/-- The statuses an ingestion or a cycle is to set for a commodity. -/
def SessionEvent.settings (key symbol : String) : SessionEvent → List Int
  | ingest (.transaction tx _) => if tx.failed then [] else tx.ordered.filterMap (setting key)
  | ingest (.reconcile _) => []
  | commodity senv c =>
      if c.symbol = symbol then ((confirmedFlip senv c).map fun s => (s.toNat : Int)).toList else []

/-- The commodity's row is there, with its address. -/
def HasAddress (key symbol : String) (db : EventDb) : Prop :=
  ∃ c, commodityRow db symbol = some c ∧ c.commodityPubkey = some key

instance (key symbol : String) (db : EventDb) : Decidable (HasAddress key symbol db) :=
  decidable_of_iff ((commodityRow db symbol).any (·.commodityPubkey = some key) = true) (by
    simp [HasAddress, Option.any_eq_true])

/-- The status an application writes to a commodity's row. -/
def writtenBy (key symbol : String) (a : Applied) : Option Int :=
  if HasAddress key symbol a.db then setting key a.ev else none

/-- The statuses written to a commodity's row. -/
def SessionEvent.writes (env : IngestEnv) (key symbol : String) (db : EventDb) :
    SessionEvent → List Int
  | ingest ing => (ing.applied env db).filterMap (writtenBy key symbol)
  | commodity senv c =>
      if (commodityRow db symbol).isSome then (commodity senv c).settings key symbol else []

/-- Those written by a sequence, in order. -/
def statusWrites (env : IngestEnv) (key symbol : String) : EventDb → List SessionEvent → List Int
  | _, [] => []
  | db, ev :: evs => ev.writes env key symbol db ++ statusWrites env key symbol (ev.run env db) evs

/-- The text of a commodity's column; that of a new row where it has none. -/
def statusColumn (db : EventDb) (symbol : String) : String :=
  ((commodityRow db symbol).map (·.status)).getD "open"

/-- A commodity's address belongs to its symbol, as it is derived from it. -/
def AddressOf (key symbol commodity symbol' : String) : Prop := commodity = key ↔ symbol' = symbol

/-- The rows are keyed by symbol, and the addresses they have are their own. -/
structure Addressed (key symbol : String) (db : EventDb) : Prop where
  address : ∀ c ∈ db.commodities, ∀ p, c.commodityPubkey = some p → AddressOf key symbol p c.symbol
  symbols : (db.commodities.map (·.symbol)).Nodup

/-- An ingestion that sets no status of the commodity. -/
def Unrelated (key symbol : String) : Ingest.Ingestion → Prop
  | .transaction tx _ => ∀ ev ∈ tx.ordered, setting key ev = none ∧
      ∀ commodity symbol' mint, ev = .commodityCreated commodity symbol' mint →
        AddressOf key symbol commodity symbol'
  | .reconcile _ => True

/-- What is ingested: the transactions of the run, among others. -/
def IngestsRun (base58 : Pubkey → String) (casing : Casing) (key symbol : String)
    (txs : List ChainTx) (evs : List SessionEvent) : Prop :=
  ∀ ing, .ingest ing ∈ evs →
    (∃ tx ∈ txs, ∃ states, ing = .transaction (tx.eventTx base58 casing) states) ∨
      Unrelated key symbol ing

/-- The column has the chain's status, and no cycle is misled by it. -/
structure StatusFollows (symbol : String) (status : UInt8) (db : EventDb) : Prop where
  stored : ∃ c, commodityRow db symbol = some c ∧ c.status = statusText status.toNat
  halted : ∀ env c, (listCommodities env db).find? (·.symbol = symbol) = some c →
    sessionStep env c = .halted → status = statusHalted
  desired : ∀ env c, (listCommodities env db).find? (·.symbol = symbol) = some c →
    sessionStep env c = .desired → status = desiredStatus env c

/-! ### The run on the chain -/

theorem handleSetStatus_ok {config : GlobalConfig} {authority : Pubkey} {c c' : Commodity}
    {status : UInt8}
    (h : handleSetStatus config authority c status = .ok c') :
    isStatus status = true ∧ c' = { c with status } := by
  obtain ⟨-, -, h⟩ := bind_eq_ok.mp h
  obtain ⟨hstatus, h⟩ := require_bind_eq_ok.mp h
  obtain ⟨-, h⟩ := require_bind_eq_ok.mp h
  obtain ⟨-, h⟩ := require_bind_eq_ok.mp h
  cases h
  exact ⟨hstatus, rfl⟩

section Chain

variable {key : Pubkey} {c c' : Commodity} {txs : List ChainTx}

/-- Every transaction of a run sets a status. -/
theorem StatusRun.emitted_of_mem (h : StatusRun key c txs c') {tx : ChainTx} (htx : tx ∈ txs) :
    ∃ status, isStatus status = true ∧
      tx.emitted = [.statusChanged { commodity := key, status }] := by
  induction h with
  | nil _ => cases htx
  | cons head emitted _ ih =>
      rcases List.mem_cons.mp htx with rfl | htx
      · exact ⟨_, (handleSetStatus_ok head).1, emitted⟩
      · exact ih htx

/-- A run leaves a status. -/
theorem StatusRun.isStatus (h : StatusRun key c txs c') (htxs : txs ≠ []) :
    isStatus c'.status = true := by
  induction h with
  | nil _ => exact absurd rfl htxs
  | @cons _ _ c c' c'' status tx txs head _ tail ih =>
      by_cases hnil : txs = []
      · subst hnil
        obtain ⟨hstatus, rfl⟩ := handleSetStatus_ok head
        cases tail
        exact hstatus
      · exact ih hnil

end Chain

/-- A status is one of the three. -/
theorem isStatus_iff {v : UInt8} :
    isStatus v = true ↔ v = statusOpen ∨ v = statusClosed ∨ v = statusHalted := by
  unfold isStatus
  rw [decide_eq_true_eq]
  constructor
  · intro h
    have hle : v.toNat ≤ 2 := h
    have hv : v = UInt8.ofNat v.toNat := (UInt8.ofNat_toNat).symm
    rw [hv]
    interval_cases v.toNat <;> simp [statusOpen, statusClosed, statusHalted]
  · rintro (rfl | rfl | rfl) <;> decide

/-- The cycle reads a status's text as the status. -/
theorem statusByte_statusText {v : UInt8} (h : isStatus v = true) :
    statusByte (statusText v.toNat) = v := by
  rcases isStatus_iff.mp h with rfl | rfl | rfl <;> decide +kernel

/-! ### What is written -/

section Column

variable {key symbol : String} {env : IngestEnv} {db db' : EventDb} {c : CommodityRow} {a : Applied}

/-- An event leaves a row with the status it sets for the row's address, if it sets one. -/
theorem after_status : (c.after a).status =
    (((c.commodityPubkey.bind (setting · a.ev)).map statusText).getD c.status) := by
  unfold CommodityRow.after
  split
  · next hev =>
      rw [hev]
      cases c.commodityPubkey <;> simp only [setting, Option.bind_none, Option.bind_some] <;>
        split_ifs <;> rfl
  · next hev =>
      rw [hev]
      have hkept : ∀ r, (c.trade r).status = c.status := by
        intro r
        unfold CommodityRow.trade
        split <;> rfl
      cases c.commodityPubkey <;> simp only [setting, Option.bind_none, Option.bind_some] <;>
      · split
        · split_ifs
          · exact hkept _
          · rfl
        · rfl
  · next hev =>
      rw [hev]
      cases c.commodityPubkey <;> simp only [setting, Option.bind_none, Option.bind_some] <;>
      · split
        · split_ifs <;> rfl
        · rfl
  · next commodity status hev =>
      rw [hev]
      cases hkey : c.commodityPubkey with
      | none => simp
      | some p => by_cases hmine : commodity = p <;> simp [setting, hmine, Ne.symm]
  · next h1 h2 h3 h4 =>
      cases hev : a.ev with
      | statusChanged commodity status => exact absurd hev (h4 _ _)
      | _ => cases c.commodityPubkey <;> rfl

/-- The rows with an address keep it, and new ones have their commodity's. -/
theorem Addressed.effect (h : AppliedEffect a db')
    (hcreated : ∀ commodity symbol' mint, a.ev = .commodityCreated commodity symbol' mint →
      AddressOf key symbol commodity symbol')
    (hdb : Addressed key symbol a.db) : Addressed key symbol db' := by
  obtain ⟨new, heq, hnew⟩ := h.commodities
  constructor
  · intro c hc p hp
    rw [heq, List.mem_append] at hc
    rcases hc with hc | hc
    · obtain ⟨c₀, hc₀, rfl⟩ := List.mem_map.mp hc
      obtain ⟨hsymbol, hkey | ⟨commodity, mint, hev, hkey⟩⟩ := c₀.after_symbol a
      · rw [hsymbol]
        exact hdb.address c₀ hc₀ p (hkey.symm.trans hp)
      · obtain rfl := Option.some.inj (hkey.symm.trans hp)
        rw [hsymbol]
        exact hcreated _ _ _ hev
    · obtain ⟨-, commodity, mint, hev, hkey, -⟩ := hnew c hc
      obtain rfl := Option.some.inj (hkey.symm.trans hp)
      exact hcreated _ _ _ hev
  · have hsame : (a.db.commodities.map (·.after a)).map (·.symbol) =
        a.db.commodities.map (·.symbol) := by
      rw [List.map_map]
      exact List.map_congr_left fun c _ => (c.after_symbol a).1
    rw [heq, List.map_append, hsame]
    refine List.nodup_append.mpr ⟨hdb.symbols, by cases new <;> simp, ?_⟩
    intro old hold fresh hfresh hclash
    obtain ⟨c₀, hc₀, rfl⟩ := List.mem_map.mp hold
    obtain ⟨c, hc, rfl⟩ := List.mem_map.mp hfresh
    exact (hnew c hc).1 c₀ hc₀ hclash

theorem commodityRow_symbol (h : commodityRow db symbol = some c) : c.symbol = symbol := by
  simpa [commodityRow] using List.find?_some h

/-- A commodity's row has its own address, if any. -/
theorem Addressed.pubkey (hdb : Addressed key symbol db) (hrow : commodityRow db symbol = some c) :
    c.commodityPubkey = none ∨ c.commodityPubkey = some key := by
  cases hkey : c.commodityPubkey with
  | none => exact .inl rfl
  | some p =>
      have haddress := hdb.address c (List.mem_of_find?_eq_some hrow) p hkey
      exact .inr (congrArg some (haddress.mpr (commodityRow_symbol hrow)))

/-- An application keeps a commodity's row, as what the event makes of it. -/
theorem row_of_effect (h : AppliedEffect a db') (hrow : commodityRow a.db symbol = some c) :
    commodityRow db' symbol = some (c.after a) := by
  obtain ⟨new, heq, -⟩ := h.commodities
  unfold commodityRow at hrow ⊢
  rw [heq, List.find?_append, find?_map_after, hrow]
  rfl

/-- The column after an application. -/
theorem statusColumn_effect (h : AppliedEffect a db') (hdb : Addressed key symbol a.db) :
    statusColumn db' symbol =
      ((writtenBy key symbol a).map statusText).getD (statusColumn a.db symbol) := by
  unfold statusColumn writtenBy
  cases hrow : commodityRow a.db symbol with
  | some c =>
      have haddress : HasAddress key symbol a.db ↔ c.commodityPubkey = some key := by
        simp [HasAddress, hrow]
      rw [row_of_effect h hrow]
      simp only [Option.map_some, Option.getD_some, after_status, haddress]
      rcases hdb.pubkey hrow with hkey | hkey <;> simp [hkey]
  | none =>
      obtain ⟨new, heq, hnew⟩ := h.commodities
      have hnone : commodityRow db' symbol = new.toList.find? (·.symbol = symbol) := by
        unfold commodityRow at hrow ⊢
        rw [heq, List.find?_append, find?_map_after, hrow]
        rfl
      have haddress : ¬ HasAddress key symbol a.db := by simp [HasAddress, hrow]
      rw [hnone, if_neg haddress]
      cases hfresh : new.toList.find? (·.symbol = symbol) with
      | none => simp
      | some c =>
          -- a row that is new is open
          obtain ⟨-, _, _, -, -, hopen, -⟩ := hnew c (List.mem_of_find?_eq_some hfresh)
          simp [hopen]

/-- An application leaves a row its address. -/
theorem HasAddress.effect (h : AppliedEffect a db')
    (hcreated : ∀ commodity symbol' mint, a.ev = .commodityCreated commodity symbol' mint →
      AddressOf key symbol commodity symbol')
    (hdb : HasAddress key symbol a.db) : HasAddress key symbol db' := by
  obtain ⟨c, hrow, hkey⟩ := hdb
  refine ⟨c.after a, row_of_effect h hrow, ?_⟩
  obtain ⟨-, hsame | ⟨commodity, mint, hev, hnew⟩⟩ := c.after_symbol a
  · rw [hsame, hkey]
  · rw [hnew, (hcreated _ _ _ hev).mpr (commodityRow_symbol hrow)]

/-- What a chain of applications leaves of a commodity's row. -/
structure ColumnEffect (key symbol : String) (writes : List Int) (db db' : EventDb) : Prop where
  column : statusColumn db' symbol = (writes.getLast?.map statusText).getD (statusColumn db symbol)
  addressed : Addressed key symbol db'
  hasAddress : HasAddress key symbol db → HasAddress key symbol db'

theorem ColumnEffect.nil (hdb : Addressed key symbol db) : ColumnEffect key symbol [] db db :=
  ⟨rfl, hdb, id⟩

theorem ColumnEffect.append {db₁ db₂ db₃ : EventDb} {writes writes' : List Int}
    (h : ColumnEffect key symbol writes db₁ db₂) (h' : ColumnEffect key symbol writes' db₂ db₃) :
    ColumnEffect key symbol (writes ++ writes') db₁ db₃ where
  column := by
    rw [h'.column, h.column, List.getLast?_append]
    cases writes'.getLast? <;> rfl
  addressed := h'.addressed
  hasAddress := fun hdb => h'.hasAddress (h.hasAddress hdb)

/-- The column has the status last applied while the row had its address. -/
theorem column_of_applies {as : List Applied} (h : Applies db as db')
    (hdb : Addressed key symbol db)
    (hcreated : ∀ a ∈ as, ∀ commodity symbol' mint,
      a.ev = .commodityCreated commodity symbol' mint →
      AddressOf key symbol commodity symbol') :
    ColumnEffect key symbol (as.filterMap (writtenBy key symbol)) db db' := by
  induction h with
  | nil _ => exact .nil hdb
  | @event a as db' db'' head _ ih =>
      have hhead := hcreated a List.mem_cons_self
      have hrest := ih (hdb.effect head hhead) fun a' ha' =>
        hcreated a' (List.mem_cons_of_mem _ ha')
      have hstep : ColumnEffect key symbol (writtenBy key symbol a).toList a.db db' := by
        refine ⟨?_, hdb.effect head hhead, HasAddress.effect head hhead⟩
        rw [statusColumn_effect head hdb]
        cases writtenBy key symbol a <;> rfl
      have hall := hstep.append hrest
      rw [List.filterMap_cons]
      cases hwrite : writtenBy key symbol a <;> simpa [hwrite] using hall
  | pools head _ ih =>
      have hsame : ∀ {db db' : EventDb}, PoolsOnly db db' → commodityRow db' symbol =
          commodityRow db symbol := by
        intro db db' h
        rw [commodityRow, h.commodities, commodityRow]
      have hrest := ih ⟨head.commodities ▸ hdb.address, head.commodities ▸ hdb.symbols⟩ hcreated
      refine ⟨?_, hrest.addressed, fun h => hrest.hasAddress ?_⟩
      · rw [hrest.column, statusColumn, hsame head, statusColumn]
      · rwa [HasAddress, hsame head]

/-- The cycle's own write. -/
theorem column_of_flip {senv : SessionEnv} {l : ListedCommodity} (hdb : Addressed key symbol db) :
    ColumnEffect key symbol ((SessionEvent.commodity senv l).writes env key symbol db) db
      (flipStatus senv db l) := by
  simp only [SessionEvent.writes, SessionEvent.settings, flipStatus]
  cases hflip : confirmedFlip senv l with
  | none => simpa using ColumnEffect.nil hdb
  | some status =>
      have hrow : commodityRow (updateCommodityStatus l.symbol status db) symbol =
          (commodityRow db symbol).map fun c =>
            if c.symbol = l.symbol then { c with status := statusText status.toNat } else c := by
        unfold commodityRow updateCommodityStatus EventDb.updateCommodity
        rw [List.find?_map]
        congr 1
        refine congrArg (List.find? · _) ?_
        funext c
        by_cases hc : c.symbol = l.symbol <;> simp [hc]
      simp only [Option.map_some, Option.toList_some]
      refine ⟨?_, ?_, ?_⟩
      · rw [statusColumn, hrow, statusColumn]
        cases hc : commodityRow db symbol with
        | none => simp
        | some c =>
            have hsymbol := commodityRow_symbol hc
            by_cases hl : l.symbol = symbol
            · simp [hl, hsymbol]
            · simp [hl, hsymbol, Ne.symm hl]
      · have hkept : ∀ c : CommodityRow,
            (if c.symbol = l.symbol then { c with status := statusText status.toNat }
              else c).symbol =
              c.symbol ∧
            (if c.symbol = l.symbol then { c with status := statusText status.toNat }
              else c).commodityPubkey = c.commodityPubkey := by
          intro c
          split_ifs <;> exact ⟨rfl, rfl⟩
        constructor
        · intro c hc p hp
          obtain ⟨c₀, hc₀, rfl⟩ := List.mem_map.mp hc
          rw [(hkept c₀).1]
          exact hdb.address c₀ hc₀ p ((hkept c₀).2.symm.trans hp)
        · have hsame : (updateCommodityStatus l.symbol status db).commodities.map (·.symbol) =
              db.commodities.map (·.symbol) := by
            unfold updateCommodityStatus EventDb.updateCommodity
            rw [List.map_map]
            exact List.map_congr_left fun c _ => (hkept c).1
          rw [hsame]
          exact hdb.symbols
      · intro haddress
        obtain ⟨c, hc, hkey⟩ := haddress
        refine ⟨_, by rw [hrow, hc, Option.map_some], ?_⟩
        split_ifs
        · exact hkey
        · exact hkey

end Column

section Runs

variable {base58 : Pubkey → String} {casing : Casing} {env : IngestEnv} {db : EventDb}
  {key : Pubkey} {symbol : String} {c c' : Commodity} {txs : List ChainTx}
  {evs : List SessionEvent}

theorem eventTx_ordered {tx : ChainTx} {status : UInt8}
    (h : tx.emitted = [.statusChanged { commodity := key, status }]) :
    (tx.eventTx base58 casing).ordered = [.statusChanged (base58 key) status.toNat] := by
  obtain ⟨ev, htyped, hcarries⟩ :=
    Emitted.typed base58 casing (.statusChanged { commodity := key, status }) id
  simp only [Carries] at hcarries
  subst hcarries
  simp [EventTx.ordered, ChainTx.eventTx, h, decodeAnchorEvents, programOrder,
    Emitted.program, htyped]

theorem settings_of_run {tx : ChainTx} {status : UInt8} {states : List PoolUpsert}
    (h : tx.emitted = [.statusChanged { commodity := key, status }]) :
    (SessionEvent.ingest (.transaction (tx.eventTx base58 casing) states)).settings (base58 key)
      symbol = [(status.toNat : Int)] := by
  have hkept : (tx.eventTx base58 casing).failed = false := rfl
  simp [SessionEvent.settings, eventTx_ordered h, hkept, setting]

theorem settings_of_unrelated {key : String} {ing : Ingest.Ingestion}
    (h : Unrelated key symbol ing) : (SessionEvent.ingest ing).settings key symbol = [] := by
  cases ing with
  | reconcile states => rfl
  | transaction tx states =>
      simp only [SessionEvent.settings]
      split_ifs
      · rfl
      · exact List.filterMap_eq_nil_iff.mpr fun ev hev => (h ev hev).1

/-- A transaction of the run is always applied. -/
theorem applied_of_run {tx : ChainTx} {status : UInt8} {states : List PoolUpsert}
    (h : tx.emitted = [.statusChanged { commodity := key, status }]) :
    (Ingest.Ingestion.transaction (tx.eventTx base58 casing) states).applied env db =
      [⟨db, tx.eventTx base58 casing, .statusChanged (base58 key) status.toNat⟩] := by
  have hordered := @eventTx_ordered base58 casing _ _ _ h
  have hlost : (tx.eventTx base58 casing).lostPool = false := by
    simp [EventTx.lostPool, ChainTx.eventTx, h, Emitted.name]
  have hkept : (tx.eventTx base58 casing).failed = false := rfl
  simp [Ingest.Ingestion.applied, ingestEvents, hkept, hordered, hlost, applyEvent,
    appliedEvents, ok_bind]

theorem mem_ordered_of_applied {tx : EventTx} {states : List PoolUpsert} {a : Applied}
    (ha : a ∈ (Ingest.Ingestion.transaction tx states).applied env db) : a.ev ∈ tx.ordered := by
  obtain ⟨⟨_, heq⟩, -, hev⟩ := mem_applied ha
  cases heq
  exact hev

/-- What is ingested creates the commodity at its own address. -/
theorem IngestsRun.created (hrun : StatusRun key c txs c')
    (hings : IngestsRun base58 casing (base58 key) symbol txs evs) {ing : Ingest.Ingestion}
    (hing : .ingest ing ∈ evs) : ∀ a ∈ ing.applied env db, ∀ commodity symbol' mint,
      a.ev = .commodityCreated commodity symbol' mint →
        AddressOf (base58 key) symbol commodity symbol' := by
  intro a ha commodity symbol' mint hev
  rcases hings ing hing with ⟨tx, htx, states, rfl⟩ | hother
  · obtain ⟨status, -, hemitted⟩ := hrun.emitted_of_mem htx
    rw [applied_of_run hemitted, List.mem_singleton] at ha
    rw [ha] at hev
    cases hev
  · cases ing with
    | reconcile states => simp [Ingest.Ingestion.applied] at ha
    | transaction tx states =>
        exact (hother _ (mem_ordered_of_applied ha)).2 commodity symbol' mint hev

theorem column_of_event (hrun : StatusRun key c txs c')
    (hings : IngestsRun base58 casing (base58 key) symbol txs evs)
    (hdb : Addressed (base58 key) symbol db) {ev : SessionEvent} (hev : ev ∈ evs) :
    ColumnEffect (base58 key) symbol (ev.writes env (base58 key) symbol db) db (ev.run env db) := by
  cases ev with
  | ingest ing => exact column_of_applies (applies_run ing) hdb (hings.created hrun hev)
  | commodity senv l => exact column_of_flip hdb

/-- The column has the last status written. -/
theorem column_of_events (hrun : StatusRun key c txs c')
    (hings : IngestsRun base58 casing (base58 key) symbol txs evs)
    (hdb : Addressed (base58 key) symbol db) :
    ColumnEffect (base58 key) symbol (statusWrites env (base58 key) symbol db evs) db
      (sessionAll env db evs) := by
  induction evs generalizing db with
  | nil => exact .nil hdb
  | cons ev evs ih =>
      have hhead := @column_of_event _ _ env db _ _ _ _ _ _ hrun hings hdb ev List.mem_cons_self
      exact hhead.append (ih (fun ing hing => hings ing (List.mem_cons_of_mem _ hing))
        hhead.addressed)

/-- Where the row has its address, what is to be set is written. -/
theorem writes_eq_settings (hrun : StatusRun key c txs c')
    (hings : IngestsRun base58 casing (base58 key) symbol txs evs)
    (hdb : HasAddress (base58 key) symbol db) {ev : SessionEvent} (hev : ev ∈ evs) :
    ev.writes env (base58 key) symbol db = ev.settings (base58 key) symbol := by
  cases ev with
  | commodity senv l =>
      obtain ⟨row, hrow, -⟩ := hdb
      simp [SessionEvent.writes, hrow]
  | ingest ing =>
      simp only [SessionEvent.writes]
      rcases hings ing hev with ⟨tx, htx, states, rfl⟩ | hother
      · obtain ⟨status, -, hemitted⟩ := hrun.emitted_of_mem htx
        rw [applied_of_run hemitted, settings_of_run hemitted]
        simp [writtenBy, hdb, setting]
      · rw [settings_of_unrelated hother, List.filterMap_eq_nil_iff]
        intro a ha
        cases ing with
        | reconcile states => simp [Ingest.Ingestion.applied] at ha
        | transaction tx states =>
            unfold writtenBy
            split_ifs
            · exact (hother _ (mem_ordered_of_applied ha)).1
            · rfl

theorem statusWrites_eq (hrun : StatusRun key c txs c')
    (hings : IngestsRun base58 casing (base58 key) symbol txs evs)
    (hdb : Addressed (base58 key) symbol db) (haddress : HasAddress (base58 key) symbol db) :
    statusWrites env (base58 key) symbol db evs =
      evs.flatMap (SessionEvent.settings (base58 key) symbol) := by
  induction evs generalizing db with
  | nil => rfl
  | cons ev evs ih =>
      have hhead := @column_of_event _ _ env db _ _ _ _ _ _ hrun hings hdb ev List.mem_cons_self
      have hrest := @ih (ev.run env db) (fun ing hing => hings ing (List.mem_cons_of_mem _ hing))
        hhead.addressed (hhead.hasAddress haddress)
      rw [statusWrites, hrest, writes_eq_settings hrun hings haddress List.mem_cons_self,
        List.flatMap_cons]

/-- Only statuses are set. -/
theorem valid_of_mem_settings (hrun : StatusRun key c txs c')
    (hings : IngestsRun base58 casing (base58 key) symbol txs evs) {s : Int}
    (hs : s ∈ evs.flatMap (SessionEvent.settings (base58 key) symbol)) :
    ∃ status : UInt8, isStatus status = true ∧ s = status.toNat := by
  obtain ⟨ev, hev, hs⟩ := List.mem_flatMap.mp hs
  cases ev with
  | ingest ing =>
      rcases hings ing hev with ⟨tx, htx, states, rfl⟩ | hother
      · obtain ⟨status, hvalid, hemitted⟩ := hrun.emitted_of_mem htx
        rw [settings_of_run hemitted, List.mem_singleton] at hs
        exact ⟨status, hvalid, hs⟩
      · rw [settings_of_unrelated hother] at hs
        cases hs
  | commodity senv l =>
      simp only [SessionEvent.settings] at hs
      split_ifs at hs
      · obtain ⟨status, hflip, rfl⟩ := Option.map_eq_some_iff.mp (Option.mem_toList.mp hs)
        refine ⟨status, ?_, rfl⟩
        unfold confirmedFlip at hflip
        split at hflip
        · next hstep =>
            split_ifs at hflip
            obtain rfl := Option.some.inj hflip
            unfold sessionStep desiredStatus at hstep
            split_ifs at hstep <;> cases hstep <;> decide
        · cases hflip
      · cases hs

/-- A cycle by itself is what it does about each commodity it lists. -/
theorem runSessionCycle_eq (senv : SessionEnv) :
    runSessionCycle senv db =
      sessionAll env db ((listCommodities senv db).map (.commodity senv)) := by
  rw [runSessionCycle, sessionAll, List.foldl_map]
  rfl

end Runs

/-! ### The column and the chain -/

/-- The commodity the cycle lists is its row. -/
theorem row_of_listed {senv : SessionEnv} {db : EventDb} {symbol : String} {l : ListedCommodity}
    (hdb : (db.commodities.map (·.symbol)).Nodup)
    (h : (listCommodities senv db).find? (·.symbol = symbol) = some l) :
    ∃ c, commodityRow db symbol = some c ∧ l.status = statusByte c.status := by
  have hsymbol : l.symbol = symbol := by simpa using List.find?_some h
  obtain ⟨c, hc, hlisted⟩ := List.mem_filterMap.mp (List.mem_of_find?_eq_some h)
  obtain ⟨p, -, rfl⟩ := Option.map_eq_some_iff.mp hlisted
  refine ⟨c, ?_, rfl⟩
  unfold commodityRow
  cases hfind : db.commodities.find? (·.symbol = symbol) with
  | none =>
      exact absurd (decide_eq_true hsymbol) (List.find?_eq_none.mp hfind c hc)
  | some c₀ =>
      have hfound : c₀.symbol = symbol := by simpa using List.find?_some hfind
      have hsame : c₀.symbol = c.symbol := hfound.trans hsymbol.symm
      rw [List.inj_on_of_nodup_map hdb (List.mem_of_find?_eq_some hfind) hc hsame]

/-- The column follows the chain exactly when it has the chain's status. -/
theorem statusFollows_iff_column {key symbol : String} {db : EventDb} {status : UInt8}
    (hdb : Addressed key symbol db) (hstatus : isStatus status = true) :
    StatusFollows symbol status db ↔ (commodityRow db symbol).isSome ∧
      statusColumn db symbol = statusText status.toNat := by
  constructor
  · intro h
    obtain ⟨c, hrow, htext⟩ := h.stored
    simp [statusColumn, hrow, htext]
  · intro h
    obtain ⟨hsome, hcolumn⟩ := h
    obtain ⟨c, hrow⟩ := Option.isSome_iff_exists.mp hsome
    have htext : c.status = statusText status.toNat := by
      simpa [statusColumn, hrow] using hcolumn
    have hread : ∀ senv l, (listCommodities senv db).find? (·.symbol = symbol) = some l →
        l.status = status := by
      intro senv l hl
      obtain ⟨c', hrow', hbyte⟩ := row_of_listed hdb.symbols hl
      obtain rfl := Option.some.inj (hrow.symm.trans hrow')
      rw [hbyte, htext]
      exact statusByte_statusText hstatus
    refine ⟨⟨c, hrow, htext⟩, ?_, ?_⟩
    · intro senv l hl hstep
      unfold sessionStep at hstep
      split_ifs at hstep with h1
      exact (hread senv l hl).symm.trans h1
    · intro senv l hl hstep
      unfold sessionStep at hstep
      split_ifs at hstep with h1 h2
      exact (hread senv l hl).symm.trans h2

section Main

variable {base58 : Pubkey → String} {casing : Casing} {env : IngestEnv} {db : EventDb}
  {key : Pubkey} {symbol : String} {txs : List ChainTx} {evs : List SessionEvent}
  {c c' : Commodity}

/-- After a run of `set_status` on the chain the column follows it exactly when the commodity
has a row and the last status written to it, or that of a new row, is the one the latest
transaction set. Where the row had its address from the start, and every transaction of the
run was ingested, that is the last status ingested or set by a cycle. -/
theorem status_follows_iff (hrun : StatusRun key c txs c') (htxs : txs ≠ [])
    (hdb : Addressed (base58 key) symbol db)
    (hings : IngestsRun base58 casing (base58 key) symbol txs evs) :
    (StatusFollows symbol c'.status (sessionAll env db evs) ↔
      (commodityRow (sessionAll env db evs) symbol).isSome ∧
        ((statusWrites env (base58 key) symbol db evs).getLast?.map statusText).getD
          (statusColumn db symbol) = statusText c'.status.toNat) ∧
    (HasAddress (base58 key) symbol db →
      (∀ tx ∈ txs, ∃ states, .ingest (.transaction (tx.eventTx base58 casing) states) ∈ evs) →
      (StatusFollows symbol c'.status (sessionAll env db evs) ↔
        (evs.flatMap (SessionEvent.settings (base58 key) symbol)).getLast? =
          some (c'.status.toNat : Int))) := by
  have hstatus := hrun.isStatus htxs
  have heffect := @column_of_events _ _ env _ _ _ _ _ _ _ hrun hings hdb
  have hfollows := statusFollows_iff_column heffect.addressed hstatus
  rw [heffect.column] at hfollows
  refine ⟨hfollows, ?_⟩
  intro haddress hall
  obtain ⟨row, hrow, -⟩ := heffect.hasAddress haddress
  rw [hfollows, hrow, statusWrites_eq hrun hings hdb haddress, Option.isSome_some,
    and_iff_right rfl]
  -- something was ingested last, and it sets a status
  obtain ⟨tx, htx⟩ := List.exists_mem_of_ne_nil txs htxs
  obtain ⟨states, hmem⟩ := hall tx htx
  obtain ⟨first, -, hemitted⟩ := hrun.emitted_of_mem htx
  have hset : (first.toNat : Int) ∈ evs.flatMap (SessionEvent.settings (base58 key) symbol) := by
    refine List.mem_flatMap.mpr ⟨_, hmem, ?_⟩
    rw [settings_of_run hemitted]
    exact List.mem_singleton_self _
  have hne := List.ne_nil_of_mem hset
  have hlast := List.getLast?_eq_some_getLast hne
  obtain ⟨status, hvalid, hs⟩ := valid_of_mem_settings hrun hings (List.mem_of_getLast? hlast)
  rw [hlast, hs, Option.map_some, Option.getD_some]
  constructor
  · intro h
    have hbyte := congrArg statusByte h
    rw [statusByte_statusText hvalid, statusByte_statusText hstatus] at hbyte
    rw [hbyte]
  · intro h
    rw [Option.some.inj h]

end Main

/-! ### A sample -/

namespace Sample

def statusTx (signature : String) (status : UInt8) : ChainTx :=
  { Ingest.Sample.tx with
    signature, emitted := [.statusChanged { commodity := Pubkey.default, status }] }

/-- The admin halts the commodity. -/
def halt : ChainTx := statusTx "halt" statusHalted

/-- The admin opens it again. -/
def reopen : ChainTx := statusTx "reopen" statusOpen

/-- It is closed out of hours. -/
def close : ChainTx := statusTx "close" statusClosed

/-- It is created. -/
def create : ChainTx :=
  { Ingest.Sample.tx with
    signature := "create"
    emitted := [.commodityCreated {
      commodity := Pubkey.default, symbol := ⟨#[71, 76, 68, 0, 0, 0, 0, 0, 0, 0, 0, 0], rfl⟩
      mint := Pubkey.default, valid := by decide }] }

/-- The transaction as it is delivered. -/
def deliver (tx : ChainTx) : SessionEvent :=
  .ingest (.transaction (tx.eventTx Ingest.Sample.base58 ⟨false, false⟩) [])

/-- A market out of hours; every transaction of the cycle is confirmed. -/
def outOfHours : SessionEnv where
  isSessionOpen := fun _ => false
  sessionKind := fun _ => 1
  bySymbol := fun _ => true
  sendWithPriority := fun _ _ => true

/-- The commodity's row before its creation was ingested. -/
def unlisted : EventDb :=
  { Ingest.Sample.db with
    commodities := [{ Ingest.Sample.gold 0 0 with commodityPubkey := none }] }

theorem run : StatusRun Pubkey.default PegDesk.Sample.commodity
    [halt, reopen] PegDesk.Sample.commodity :=
  .cons (show handleSetStatus PegDesk.Sample.config PegDesk.Sample.config.admin _
    statusHalted = .ok _
      from rfl) rfl
    (.cons (show handleSetStatus PegDesk.Sample.config PegDesk.Sample.config.admin _
      statusOpen = .ok _
      from rfl) rfl (.nil _))

theorem closed : StatusRun Pubkey.default PegDesk.Sample.commodity [close]
    { PegDesk.Sample.commodity with status := statusClosed } :=
  .cons (show handleSetStatus PegDesk.Sample.config PegDesk.Sample.config.admin _
    statusClosed = .ok _ from rfl) rfl (.nil _)

end Sample

/-- The halt delivered again after the reopening: the column says halted, and the commodity
is open. -/
theorem halt_redelivered :
    StatusRun Pubkey.default PegDesk.Sample.commodity [Sample.halt, Sample.reopen]
        PegDesk.Sample.commodity ∧
      ¬ StatusFollows "GLD" PegDesk.Sample.commodity.status
        (sessionAll Ingest.Sample.env (Ingest.Sample.market 0 0)
          [Sample.deliver Sample.halt, Sample.deliver Sample.reopen,
            Sample.deliver Sample.halt]) := by
  refine ⟨Sample.run, ?_⟩
  intro h
  obtain ⟨c, hrow, hstatus⟩ := h.stored
  have hcolumn : statusColumn (sessionAll Ingest.Sample.env (Ingest.Sample.market 0 0)
      [Sample.deliver Sample.halt, Sample.deliver Sample.reopen,
        Sample.deliver Sample.halt]) "GLD" = "halted" := by decide +kernel
  rw [statusColumn, hrow, Option.map_some, Option.getD_some, hstatus] at hcolumn
  revert hcolumn
  decide +kernel

/-- A cycle that closes the market before the indexer has seen its transaction; and a halt and
a reopening delivered in the chain's order. -/
theorem status_follows_iff_sample :
    StatusFollows "GLD" statusClosed (runSessionCycle Sample.outOfHours
      ((Sample.deliver Sample.create).run Ingest.Sample.env Sample.unlisted)) ∧
    StatusFollows "GLD" statusOpen (sessionAll Ingest.Sample.env (Ingest.Sample.market 0 0)
      [Sample.deliver Sample.halt, Sample.deliver Sample.reopen]) := by
  have hgold : ∀ row : CommodityRow, row.symbol = "GLD" →
      (row.commodityPubkey = none ∨
        row.commodityPubkey = some (Ingest.Sample.base58 Pubkey.default)) →
      ∀ db : EventDb, db.commodities = [row] →
        Addressed (Ingest.Sample.base58 Pubkey.default) "GLD" db := by
    intro row hsymbol hkey db hdb
    refine ⟨?_, by simp [hdb]⟩
    intro c hc p hp
    rw [hdb] at hc
    obtain rfl := List.mem_singleton.mp hc
    rcases hkey with hkey | hkey
    · rw [hkey] at hp
      cases hp
    · exact ⟨fun _ => hsymbol, fun _ => (Option.some.inj (hkey.symm.trans hp)).symm⟩
  constructor
  · rw [@runSessionCycle_eq Ingest.Sample.env]
    have hings : IngestsRun Ingest.Sample.base58 ⟨false, false⟩
        (Ingest.Sample.base58 Pubkey.default) "GLD" [Sample.close]
        (Sample.deliver Sample.create :: (listCommodities Sample.outOfHours
          ((Sample.deliver Sample.create).run Ingest.Sample.env Sample.unlisted)).map
            (.commodity Sample.outOfHours)) := by
      intro ing hing
      have hcreate : ing = .transaction
          (Sample.create.eventTx Ingest.Sample.base58 ⟨false, false⟩) [] := by
        rcases List.mem_cons.mp hing with heq | hmem
        · cases heq
          rfl
        · obtain ⟨l, -, heq⟩ := List.mem_map.mp hmem
          cases heq
      subst hcreate
      have hordered : (Sample.create.eventTx Ingest.Sample.base58 ⟨false, false⟩).ordered =
          [.commodityCreated (Ingest.Sample.base58 Pubkey.default) "GLD"
            (Ingest.Sample.base58 Pubkey.default)] := by decide +kernel
      refine Or.inr fun ev hev => ?_
      rw [hordered, List.mem_singleton] at hev
      subst hev
      refine ⟨rfl, fun commodity symbol' mint heq => ?_⟩
      cases heq
      exact Iff.intro (fun _ => rfl) fun _ => rfl
    exact (status_follows_iff Sample.closed (by simp)
      (hgold { Ingest.Sample.gold 0 0 with commodityPubkey := none } rfl (.inl rfl)
        Sample.unlisted rfl) hings).1.mpr (by decide +kernel)
  · have hings : IngestsRun Ingest.Sample.base58 ⟨false, false⟩
        (Ingest.Sample.base58 Pubkey.default) "GLD" [Sample.halt, Sample.reopen]
        [Sample.deliver Sample.halt, Sample.deliver Sample.reopen] := by
      intro ing hing
      simp only [List.mem_cons, List.not_mem_nil, or_false] at hing
      rcases hing with heq | heq
      · exact Or.inl ⟨Sample.halt, by simp, [], by cases heq; rfl⟩
      · exact Or.inl ⟨Sample.reopen, by simp, [], by cases heq; rfl⟩
    have hall : ∀ tx ∈ [Sample.halt, Sample.reopen], ∃ states,
        .ingest (.transaction (tx.eventTx Ingest.Sample.base58 ⟨false, false⟩) states) ∈
          [Sample.deliver Sample.halt, Sample.deliver Sample.reopen] := by
      intro tx htx
      simp only [List.mem_cons, List.not_mem_nil, or_false] at htx
      rcases htx with rfl | rfl
      · exact ⟨[], List.mem_cons_self⟩
      · exact ⟨[], List.mem_cons_of_mem _ List.mem_cons_self⟩
    exact ((status_follows_iff Sample.run (by simp)
      (hgold (Ingest.Sample.gold 0 0) rfl (.inr rfl) (Ingest.Sample.market 0 0) rfl) hings).2
        ⟨Ingest.Sample.gold 0 0, by decide +kernel, rfl⟩ hall).mpr (by decide +kernel)

end IceMarkets.Keeper
