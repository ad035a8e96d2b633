import IceMarkets.FeeRouter.Claim
import IceMarkets.Indexer.EventRows
import IceMarkets.Lib.Numeric

/-!
# IceMarkets.Keeper.Records

The facts that the keeper and the indexer both write: fee claims (`cycles/fees.ts`) and
buybacks (`cycles/buyback.ts`).

The row of a fact is the first one written under its key (`KeyedTable.find?_insertAll`). The
indexer offers a fee claim's own amounts and no buyback at all; the keeper offers what it
read off the logs, and zeros where it could not read them.
-/

namespace IceMarkets.Keeper

open Indexer Indexer.Ingest KeyedTable Numeric

/-! ### What the keeper records -/

/-- `String(ev?.data.a ?? ev?.data.b ?? fallback)`, as the number it denotes. -/
def amountOf (ev : Option RawAnchorEvent) (names : List String) (fallback : Int) :
    Except String Int :=
  match ev.bind fun ev => names.findSome? fun n => ev.data.lookup n with
  | some v => asBigInt v
  | none => .ok fallback

/-- `parseEvents`; the callers take a failure for no events. -/
def parseEvents (base58 : Pubkey → String) (casing : Casing) (name : ProgramName) (tx : ChainTx)
    (fetched : Bool) : List RawAnchorEvent :=
  if fetched then (tx.emitted.filter (·.program = name)).map (·.coded base58 casing) else []

/-- A claim of a pool that is not stored breaks the foreign key. -/
def recordFeeClaim (row : FeeClaim) (db : EventDb) : Except String EventDb :=
  if (db.poolExists row.pool).isSome then
    let row := { row with quoteAmount := perMillion row.quoteAmount,
                          baseAmount := perMillion row.baseAmount }
    .ok { db with feeClaims := insertNew FeeClaim.key db.feeClaims row }
  else .error "insert or update on table \"fee_claims\" violates foreign key constraint"

def recordClaimFromEvents (pool sig : String) (source : Int) (events : List RawAnchorEvent)
    (db : EventDb) : Except String EventDb := do
  let ev := events.find? fun e => e.name = "feesClaimed" ∨ e.name = "FeesClaimed"
  let quoteAmount ← amountOf ev ["quoteAmount", "quote_amount"] 0
  let baseAmount ← amountOf ev ["baseAmount", "base_amount"] 0
  recordFeeClaim { pool, source, quoteAmount, baseAmount, sig } db

def recordBuyback (row : BuybackRow) (db : EventDb) : EventDb :=
  let row := { row with
    coinAmount := perMillion row.coinAmount, gldAmount := perMillion row.gldAmount
    iceBurned := perMillion row.iceBurned }
  { db with buybacks := insertNew BuybackRow.key db.buybacks row }

/-- The record after `convert_and_burn`, which was sent with `coinAmount`. -/
def recordBuybackFromEvents (coinMint sig : String) (coinAmount : Int)
    (events : List RawAnchorEvent)
    (db : EventDb) : Except String EventDb := do
  let ev := events.find? fun e => e.name = "buyback" ∨ e.name = "Buyback"
  let coinAmount ← amountOf ev ["coinAmount"] coinAmount
  let gldAmount ← amountOf ev ["usdcOut"] 0
  let iceBurned ← amountOf ev ["iceBurned"] 0
  .ok (recordBuyback { coinMint, coinAmount, gldAmount, iceBurned, sig } db)

/-! ### Two writers -/

/-- A fact on the chain: a fee claim, or a buyback among the events of the programs it calls. -/
inductive Fact
  | feeClaim (events : FeeRouter.ClaimEvents)
  | buyback (coinMint : String) (others : List Emitted) (event : BuybackEvent)

/-- One of the two writers' turns. -/
inductive Write
  | keeper (fetched : Bool)
  | ingest (states : List PoolUpsert)

def Write.isKeeper : Write → Bool
  | keeper _ => true
  | ingest _ => false

namespace Fact

def emitted : Fact → List Emitted
  | feeClaim ev => .feesClaimed ev.claimed :: (ev.split.map .feesSplit).toList
  | buyback _ others e => others ++ [.buyback e]

/-- No other buyback is in the transaction. -/
def Single : Fact → Prop
  | feeClaim _ => True
  | buyback _ others _ => ∀ e ∈ others, ¬ e.IsBuyback

/-- The keeper's record of a fact. -/
def record (base58 : Pubkey → String) (casing : Casing) (tx : ChainTx) (fetched : Bool)
    (db : EventDb) :
    Fact → Except String EventDb
  | feeClaim ev => recordClaimFromEvents (base58 ev.claimed.pool) tx.signature
      (sourceByte ev.claimed.source) (parseEvents base58 casing .feeRouter tx fetched) db
  | buyback coinMint _ e => recordBuybackFromEvents coinMint tx.signature e.coinAmount.toNat
      (parseEvents base58 casing .buyback tx fetched) db

/-- A record that fails is logged. -/
def write (base58 : Pubkey → String) (casing : Casing) (env : IngestEnv)
    (tx : ChainTx) (fact : Fact)
    (db : EventDb) : Write → EventDb
  | .keeper fetched =>
      match fact.record base58 casing tx fetched db with
      | .ok db' => db'
      | .error _ => db
  | .ingest states => ingestTransaction env (tx.eventTx base58 casing) states db

/-- The two writers' turns one after the other. -/
def writes (base58 : Pubkey → String) (casing : Casing) (env : IngestEnv)
    (tx : ChainTx) (fact : Fact)
    (db : EventDb) (ws : List Write) : EventDb :=
  ws.foldl (fact.write base58 casing env tx) db

/-- No row of the fact is stored yet. -/
def Fresh (base58 : Pubkey → String) (tx : ChainTx) (db : EventDb) : Fact → Prop
  | feeClaim ev => ∀ r ∈ db.feeClaims,
      r.key ≠ (tx.signature, base58 ev.claimed.pool, (sourceByte ev.claimed.source : Int))
  | buyback _ _ _ => ∀ r ∈ db.buybacks, r.key ≠ tx.signature

/-- The fact's row is stored, with the event's amounts. -/
def Stored (base58 : Pubkey → String) (tx : ChainTx) (db : EventDb) : Fact → Prop
  | feeClaim ev => ∃ r, db.feeClaims.find? (·.key =
        (tx.signature, base58 ev.claimed.pool, (sourceByte ev.claimed.source : Int))) = some r ∧
      r.quoteAmount = ev.claimed.quoteAmount.toNat ∧ r.baseAmount = ev.claimed.baseAmount.toNat
  | buyback _ _ e => ∃ r, db.buybacks.find? (·.key = tx.signature) = some r ∧
      r.coinAmount = e.coinAmount.toNat ∧ r.gldAmount = e.usdcOut.toNat ∧
        r.iceBurned = e.iceBurned.toNat

end Fact

/-- An amount that the division by a million keeps. -/
def Kept (v : UInt64) : Prop := v.toNat < 101 * 10 ^ 16 ∨ 100 ∣ v.toNat

/-- When the first of the writes under a fact's key is right. -/
def FirstWriteRight (base58 : Pubkey → String) (casing : Casing) (db : EventDb) (ws : List Write) :
    Fact → Prop
  | .feeClaim ev => (db.poolExists (base58 ev.claimed.pool)).isSome ∧
      match ws.head? with
      | some (.keeper true) => Kept ev.claimed.quoteAmount ∧ Kept ev.claimed.baseAmount
      | some (.keeper false) => ev.claimed.quoteAmount = 0 ∧ ev.claimed.baseAmount = 0
      | _ => True
  | .buyback _ _ e =>
      match ws.find? (·.isKeeper) with
      | some (.keeper fetched) => Kept e.coinAmount ∧
          if fetched ∧ casing.camelFields then Kept e.usdcOut ∧ Kept e.iceBurned
          else e.usdcOut = 0 ∧ e.iceBurned = 0
      | _ => False

theorem perMillion_eq_iff {v : UInt64} : perMillion v.toNat = v.toNat ↔ Kept v := by
  rw [perMillion_eq_self_iff]
  unfold Kept
  omega

/-! ### Fee claims -/

section FeeClaims

variable {base58 : Pubkey → String} {casing : Casing} {env : IngestEnv} {tx : ChainTx}
  {db : EventDb}
  {ev : FeeRouter.ClaimEvents} {ws : List Write}

/-- The row a turn offers for a fee claim. -/
def claimRowOf (base58 : Pubkey → String) (sig : String) (ev : FeeRouter.ClaimEvents) (w : Write) :
    FeeClaim where
  pool := base58 ev.claimed.pool
  source := sourceByte ev.claimed.source
  sig := sig
  quoteAmount := match w with
    | .keeper fetched => if fetched then perMillion ev.claimed.quoteAmount.toNat else 0
    | .ingest _ => ev.claimed.quoteAmount.toNat
  baseAmount := match w with
    | .keeper fetched => if fetched then perMillion ev.claimed.baseAmount.toNat else 0
    | .ingest _ => ev.claimed.baseAmount.toNat

theorem claim_ordered (htx : tx.emitted = (Fact.feeClaim ev).emitted) :
    (tx.eventTx base58 casing).ordered =
      .feesClaimed (base58 ev.claimed.pool)
        (sourceByte ev.claimed.source) ev.claimed.quoteAmount.toNat
        ev.claimed.baseAmount.toNat ::
      (ev.split.map fun s => IcemarketsEvent.feesSplit
        (base58 s.pool) s.holders.toNat s.buyback.toNat
        s.protocol.toNat).toList := by
  obtain ⟨claimed, htyped, hcarries⟩ := Emitted.typed base58 casing (.feesClaimed ev.claimed) id
  simp only [Carries] at hcarries
  subst hcarries
  cases hsplit : ev.split with
  | none =>
      simp [EventTx.ordered, ChainTx.eventTx, htx, Fact.emitted, hsplit, decodeAnchorEvents,
        programOrder, Emitted.program, htyped]
  | some s =>
      obtain ⟨split, htyped', hcarries⟩ := Emitted.typed base58 casing (.feesSplit s) id
      simp only [Carries] at hcarries
      subst hcarries
      simp [EventTx.ordered, ChainTx.eventTx, htx, Fact.emitted, hsplit, decodeAnchorEvents,
        programOrder, Emitted.program, htyped, htyped', IcemarketsEvent.program]

/-- A `FeesClaimed` of a known pool is offered as it is. -/
theorem apply_feesClaimed {etx : EventTx} (states : List PoolUpsert)
    (hsig : etx.signature = tx.signature) :
    ∃ db', applyEvent env etx (.feesClaimed (base58 ev.claimed.pool) (sourceByte ev.claimed.source)
        ev.claimed.quoteAmount.toNat ev.claimed.baseAmount.toNat) db = .ok db' ∧
      db'.pools = db.pools ∧ db'.feeClaims =
        if (db.poolExists (base58 ev.claimed.pool)).isSome then
          insertNew FeeClaim.key db.feeClaims (claimRowOf base58 tx.signature ev (.ingest states))
        else db.feeClaims := by
  simp only [applyEvent]
  cases hpool : db.poolExists (base58 ev.claimed.pool) with
  | none => exact ⟨db, rfl, rfl, rfl⟩
  | some p => exact ⟨_, rfl, rfl, by simp [claimRowOf, hsig]⟩

/-- A `FeesSplit` leaves the fee claims. -/
theorem apply_feesSplit {etx : EventTx} {pool : String} {holders buyback protocol : Int} :
    ∃ db', applyEvent env etx (.feesSplit pool holders buyback protocol) db = .ok db' ∧
      db'.pools = db.pools ∧ db'.feeClaims = db.feeClaims := by
  simp only [applyEvent]
  cases db.poolExists pool with
  | none => exact ⟨db, rfl, rfl, rfl⟩
  | some p => exact ⟨_, rfl, rfl, rfl⟩

/-- An ingestion offers the event's own amounts. -/
theorem ingest_claim (states : List PoolUpsert) (htx : tx.emitted = (Fact.feeClaim ev).emitted) :
    (ingestTransaction env (tx.eventTx base58 casing) states db).pools = db.pools ∧
      (ingestTransaction env (tx.eventTx base58 casing) states db).feeClaims =
        if (db.poolExists (base58 ev.claimed.pool)).isSome then
          insertNew FeeClaim.key db.feeClaims (claimRowOf base58 tx.signature ev (.ingest states))
        else db.feeClaims := by
  have hkept : (tx.eventTx base58 casing).failed = false := rfl
  have hlost : (tx.eventTx base58 casing).lostPool = false := by
    cases hsplit : ev.split <;>
      simp [EventTx.lostPool, ChainTx.eventTx, htx, Fact.emitted, hsplit, Emitted.name]
  obtain ⟨db₁, hclaim, hpools, hclaims⟩ :=
    @apply_feesClaimed base58 env tx db ev (tx.eventTx base58 casing) states rfl
  unfold ingestTransaction ingestEvents
  rw [claim_ordered htx, hkept, hlost]
  cases ev.split with
  | none =>
      simp only [Option.map_none, Option.toList_none, List.foldlM_cons, List.foldlM_nil, hclaim]
      exact ⟨hpools, hclaims⟩
  | some s =>
      obtain ⟨db₂, hsplit, hpools₂, hclaims₂⟩ := @apply_feesSplit env db₁ (tx.eventTx base58 casing)
        (base58 s.pool) s.holders.toNat s.buyback.toNat s.protocol.toNat
      simp only [Option.map_some, Option.toList_some, List.foldlM_cons, List.foldlM_nil, hclaim]
      simp only [ok_bind, hsplit]
      exact ⟨hpools₂.trans hpools, hclaims₂.trans hclaims⟩

/-- What the keeper reads of a claim. -/
theorem claim_amounts (htx : tx.emitted = (Fact.feeClaim ev).emitted) (fetched : Bool) :
    let found := (parseEvents base58 casing .feeRouter tx fetched).find? fun e =>
      e.name = "feesClaimed" ∨ e.name = "FeesClaimed"
    amountOf found ["quoteAmount", "quote_amount"] 0 =
        .ok (if fetched then ev.claimed.quoteAmount.toNat else 0) ∧
      amountOf found ["baseAmount", "base_amount"] 0 =
        .ok (if fetched then ev.claimed.baseAmount.toNat else 0) := by
  cases fetched with
  | false => exact ⟨rfl, rfl⟩
  | true =>
      have hfound : (parseEvents base58 casing .feeRouter tx true).find?
          (fun e => e.name = "feesClaimed" ∨ e.name = "FeesClaimed") =
          some ((Emitted.feesClaimed ev.claimed).coded base58 casing) := by
        unfold parseEvents
        rw [htx]
        cases hc : casing.camelEvents <;>
          simp [Fact.emitted, Emitted.program, Emitted.coded, Emitted.name, Emitted.camelName, hc]
      rw [hfound]
      cases hc : casing.camelFields <;>
        simp [amountOf, Emitted.coded, Emitted.fields, hc, List.lookup_cons, asBigInt]

theorem write_claim (htx : tx.emitted = (Fact.feeClaim ev).emitted) (w : Write) :
    ((Fact.feeClaim ev).write base58 casing env tx db w).pools = db.pools ∧
      ((Fact.feeClaim ev).write base58 casing env tx db w).feeClaims =
        if (db.poolExists (base58 ev.claimed.pool)).isSome then
          insertNew FeeClaim.key db.feeClaims (claimRowOf base58 tx.signature ev w)
        else db.feeClaims := by
  cases w with
  | ingest states => exact ingest_claim states htx
  | keeper fetched =>
      obtain ⟨hquote, hbase⟩ := @claim_amounts base58 casing tx ev htx fetched
      simp only [Fact.write, Fact.record, recordClaimFromEvents, hquote, hbase, ok_bind,
        recordFeeClaim]
      cases hpool : (db.poolExists (base58 ev.claimed.pool)).isSome with
      | false => simp
      | true => cases fetched <;> simp [claimRowOf, perMillion]

/-- The table after any turns of the two writers. -/
theorem writes_claim (htx : tx.emitted = (Fact.feeClaim ev).emitted) :
    ((Fact.feeClaim ev).writes base58 casing env tx db ws).feeClaims =
      if (db.poolExists (base58 ev.claimed.pool)).isSome then
        insertAll FeeClaim.key db.feeClaims (ws.map (claimRowOf base58 tx.signature ev))
      else db.feeClaims := by
  induction ws generalizing db with
  | nil => simp [Fact.writes]
  | cons w ws ih =>
      obtain ⟨hpools, hclaims⟩ := @write_claim base58 casing env tx db ev htx w
      have hsame : ((Fact.feeClaim ev).write base58 casing env tx db w).poolExists
          (base58 ev.claimed.pool) = db.poolExists (base58 ev.claimed.pool) := by
        unfold EventDb.poolExists
        rw [hpools]
      have ih := @ih ((Fact.feeClaim ev).write base58 casing env tx db w)
      rw [hsame, hclaims] at ih
      unfold Fact.writes at ih ⊢
      rw [List.foldl_cons, ih]
      split_ifs
      · rfl
      · rfl

theorem claim_stored_iff (htx : tx.emitted = (Fact.feeClaim ev).emitted)
    (hfresh : (Fact.feeClaim ev).Fresh base58 tx db) (hne : ws ≠ []) :
    (Fact.feeClaim ev).Stored base58 tx ((Fact.feeClaim ev).writes base58 casing env tx db ws) ↔
      FirstWriteRight base58 casing db ws (.feeClaim ev) := by
  have hkey : ∀ r ∈ ws.map (claimRowOf base58 tx.signature ev), r.key =
      (tx.signature, base58 ev.claimed.pool, (sourceByte ev.claimed.source : Int)) := by
    intro r hr
    obtain ⟨w, -, rfl⟩ := List.mem_map.mp hr
    rfl
  simp only [Fact.Stored, FirstWriteRight]
  rw [writes_claim htx]
  obtain ⟨w, rest, rfl⟩ := List.exists_cons_of_ne_nil hne
  by_cases hknown : (db.poolExists (base58 ev.claimed.pool)).isSome = true
  · rw [if_pos hknown, find?_insertAll_of_fresh hfresh hkey, List.map_cons]
    simp only [hknown, true_and, Option.some.injEq, exists_eq_left', List.head?_cons]
    cases w with
    | ingest states => simp [claimRowOf]
    | keeper fetched =>
        cases fetched with
        | true => simp [claimRowOf, perMillion_eq_iff]
        | false =>
            simp only [claimRowOf, ← UInt64.toNat_inj, UInt64.toNat_zero,
              Bool.false_eq_true, if_false]
            omega
  · rw [if_neg hknown, find?_of_fresh hfresh]
    simp [hknown]

end FeeClaims

/-! ### Buybacks -/

section Buybacks

variable {base58 : Pubkey → String} {casing : Casing} {env : IngestEnv} {tx : ChainTx}
  {db : EventDb}
  {coinMint : String} {others : List Emitted} {e : BuybackEvent} {ws : List Write}

/-- The row a turn offers for a buyback. -/
def buybackRowOf (casing : Casing) (coinMint sig : String) (e : BuybackEvent) :
    Write → Option BuybackRow
  | .keeper fetched => some {
      coinMint, sig, coinAmount := perMillion e.coinAmount.toNat
      gldAmount := if fetched ∧ casing.camelFields then perMillion e.usdcOut.toNat else 0
      iceBurned := if fetched ∧ casing.camelFields then perMillion e.iceBurned.toNat else 0 }
  | .ingest _ => none

/-- An ingestion offers no buyback. -/
theorem ingest_buyback (states : List PoolUpsert) :
    (ingestTransaction env (tx.eventTx base58 casing) states db).buybacks = db.buybacks := by
  have hrun := @applies_run env db (.transaction (tx.eventTx base58 casing) states)
  have htable := table_eq BuybackRow.key (·.buybacks) Applied.buybackOffer
    (fun a db' h => h.buybacks)
    (fun db db' h => h.buybacks) hrun
  have hnone : ((Ingest.Ingestion.transaction
    (tx.eventTx base58 casing) states).applied env db).filterMap
      Applied.buybackOffer = [] := by
    rw [List.filterMap_eq_nil_iff]
    intro a ha
    obtain ⟨⟨_, heq⟩, -, hev⟩ := mem_applied ha
    rw [← (Ingest.Ingestion.transaction.inj heq).1] at hev
    obtain ⟨e, -, hkind, hcarries⟩ := carries_of_mem_ordered hev
    exact buybackOffer_eq_none hkind hcarries
  rw [hnone] at htable
  exact htable

/-- What the keeper reads of a buyback: its fields only under their names in camel case. -/
theorem buyback_amounts (htx : tx.emitted = (Fact.buyback coinMint others e).emitted)
    (hothers : (Fact.buyback coinMint others e).Single) (fetched : Bool) :
    let found := (parseEvents base58 casing .buyback tx fetched).find? fun e =>
      e.name = "buyback" ∨ e.name = "Buyback"
    amountOf found ["coinAmount"] e.coinAmount.toNat = .ok e.coinAmount.toNat ∧
      amountOf found ["usdcOut"] 0 =
        .ok (if fetched ∧ casing.camelFields then e.usdcOut.toNat else 0) ∧
      amountOf found ["iceBurned"] 0 =
        .ok (if fetched ∧ casing.camelFields then e.iceBurned.toNat else 0) := by
  cases fetched with
  | false => exact ⟨rfl, rfl, rfl⟩
  | true =>
      have hnone : others.filter (·.program = .buyback) = [] := by
        rw [List.filter_eq_nil_iff]
        intro o ho
        have hkind := hothers o ho
        cases o with
        | buyback b => exact absurd trivial hkind
        | _ => simp [Emitted.program]
      have hfound : (parseEvents base58 casing .buyback tx true).find?
          (fun e => e.name = "buyback" ∨ e.name = "Buyback") =
          some ((Emitted.buyback e).coded base58 casing) := by
        unfold parseEvents
        rw [htx]
        simp only [Fact.emitted, List.filter_append, hnone]
        cases hc : casing.camelEvents <;>
          simp [Emitted.program, Emitted.coded, Emitted.name, Emitted.camelName, hc]
      rw [hfound]
      cases hc : casing.camelFields <;>
        simp [amountOf, Emitted.coded, Emitted.fields, hc, List.lookup_cons, asBigInt]

theorem write_buyback (htx : tx.emitted = (Fact.buyback coinMint others e).emitted)
    (hothers : (Fact.buyback coinMint others e).Single) (w : Write) :
    ((Fact.buyback coinMint others e).write base58 casing env tx db w).buybacks =
      insertOption BuybackRow.key db.buybacks (buybackRowOf casing coinMint tx.signature e w) := by
  cases w with
  | ingest states => exact ingest_buyback states
  | keeper fetched =>
      obtain ⟨hcoin, husdc, hice⟩ :=
        @buyback_amounts base58 casing tx coinMint others e htx hothers fetched
      simp only [Fact.write, Fact.record, recordBuybackFromEvents, hcoin, husdc, hice, ok_bind,
        recordBuyback, buybackRowOf, insertOption_some]
      split_ifs <;> rfl

/-- The table after any turns of the two writers. -/
theorem writes_buyback (htx : tx.emitted = (Fact.buyback coinMint others e).emitted)
    (hothers : (Fact.buyback coinMint others e).Single) :
    ((Fact.buyback coinMint others e).writes base58 casing env tx db ws).buybacks =
      insertAll BuybackRow.key db.buybacks
        (ws.filterMap (buybackRowOf casing coinMint tx.signature e)) := by
  induction ws generalizing db with
  | nil => rfl
  | cons w ws ih =>
      have ih := @ih ((Fact.buyback coinMint others e).write base58 casing env tx db w)
      rw [write_buyback htx hothers] at ih
      unfold Fact.writes at ih ⊢
      rw [List.foldl_cons, ih, insertAll_filterMap_cons]

/-- The row offered first is the keeper's first. -/
theorem head?_buybackRows :
    (ws.filterMap (buybackRowOf casing coinMint tx.signature e)).head? =
      (ws.find? (·.isKeeper)).bind (buybackRowOf casing coinMint tx.signature e) := by
  induction ws with
  | nil => rfl
  | cons w ws ih =>
      cases w with
      | ingest states => exact ih
      | keeper fetched => rfl

theorem buyback_stored_iff (htx : tx.emitted = (Fact.buyback coinMint others e).emitted)
    (hothers : (Fact.buyback coinMint others e).Single)
    (hfresh : (Fact.buyback coinMint others e).Fresh base58 tx db) :
    (Fact.buyback coinMint others e).Stored base58 tx
        ((Fact.buyback coinMint others e).writes base58 casing env tx db ws) ↔
      FirstWriteRight base58 casing db ws (.buyback coinMint others e) := by
  -- every row offered has the transaction's key
  have hkey : ∀ r ∈ ws.filterMap (buybackRowOf casing coinMint tx.signature e),
      r.key = tx.signature := by
    intro r hr
    obtain ⟨w, -, hw⟩ := List.mem_filterMap.mp hr
    cases w with
    | ingest states => cases hw
    | keeper fetched =>
        cases hw
        rfl
  simp only [Fact.Stored, FirstWriteRight]
  rw [writes_buyback htx hothers, find?_insertAll_of_fresh hfresh hkey, head?_buybackRows]
  cases hkeeper : ws.find? (·.isKeeper) with
  | none => simp
  | some w =>
      cases w with
      | ingest states =>
          have := List.find?_some hkeeper
          cases this
      | keeper fetched =>
          simp only [Option.bind_some, buybackRowOf, Option.some.injEq, exists_eq_left',
            perMillion_eq_iff]
          refine and_congr_right fun _ => ?_
          by_cases hread : fetched = true ∧ casing.camelFields = true
          · simp only [if_pos hread, perMillion_eq_iff]
          · simp only [if_neg hread, ← UInt64.toNat_inj, UInt64.toNat_zero]
            omega

end Buybacks

/-! ### Both -/

section Main

variable {base58 : Pubkey → String} {casing : Casing} {env : IngestEnv} {tx : ChainTx}
  {db : EventDb}
  {fact : Fact} {ws : List Write}

/-- After any turns of the two writers, one of them an ingestion, a fact's row has the event's
amounts exactly when the first of them to write it is right. -/
theorem records_converge_iff (htx : tx.emitted = fact.emitted) (hsingle : fact.Single)
    (hfresh : fact.Fresh base58 tx db) (hingested : ∃ states, .ingest states ∈ ws) :
    fact.Stored base58 tx (fact.writes base58 casing env tx db ws) ↔
      FirstWriteRight base58 casing db ws fact := by
  cases fact with
  | feeClaim ev =>
      obtain ⟨states, hmem⟩ := hingested
      exact claim_stored_iff htx hfresh (List.ne_nil_of_mem hmem)
  | buyback coinMint others e => exact buyback_stored_iff htx hsingle hfresh

end Main

/-! ### A sample -/

namespace Sample

/-- Trading fees of half a coin. -/
def claim : Fact :=
  .feeClaim {
    claimed := { pool := Pubkey.default, source := .dbc, quoteAmount := 500000, baseAmount := 0 }
    split := some (Ingest.Sample.split 250000 150000 100000) }

def claimTx : ChainTx := { Ingest.Sample.tx with signature := "claim", emitted := claim.emitted }

theorem claim_fresh : claim.Fresh Ingest.Sample.base58 claimTx Ingest.Sample.db := by
  intro r hr
  cases hr

end Sample

/-- A keeper that could not read the logs stores zeros, and the ingestion leaves them. -/
theorem unread_claim_kept :
    Sample.claim.Fresh Ingest.Sample.base58 Sample.claimTx Ingest.Sample.db ∧
      ¬ Sample.claim.Stored Ingest.Sample.base58 Sample.claimTx
        (Sample.claim.writes Ingest.Sample.base58 ⟨true, true⟩ Ingest.Sample.env Sample.claimTx
          Ingest.Sample.db [.keeper false, .ingest []]) := by
  refine ⟨Sample.claim_fresh, ?_⟩
  intro h
  obtain ⟨r, hr, hquote, -⟩ := h
  have hrow : ((Sample.claim.writes Ingest.Sample.base58
    ⟨true, true⟩ Ingest.Sample.env Sample.claimTx
      Ingest.Sample.db [.keeper false, .ingest []]).feeClaims.find? (·.key =
        ("claim", Ingest.Sample.base58 Pubkey.default, 0))).map (·.quoteAmount) = some 0 := by
    decide +kernel
  have hr : (Sample.claim.writes Ingest.Sample.base58 ⟨true, true⟩ Ingest.Sample.env Sample.claimTx
      Ingest.Sample.db [.keeper false, .ingest []]).feeClaims.find? (·.key =
        ("claim", Ingest.Sample.base58 Pubkey.default, 0)) = some r := hr
  rw [hr, Option.map_some, Option.some.injEq, hquote] at hrow
  revert hrow
  decide

/-- The ingestion first, and then a keeper that could not read the logs. -/
theorem records_converge_iff_sample :
    Sample.claim.Stored Ingest.Sample.base58 Sample.claimTx
      (Sample.claim.writes Ingest.Sample.base58 ⟨true, true⟩ Ingest.Sample.env Sample.claimTx
        Ingest.Sample.db [.ingest [], .keeper false]) := by
  have hsingle : Sample.claim.Single := trivial
  refine (records_converge_iff rfl hsingle Sample.claim_fresh ⟨[], List.mem_cons_self⟩).mpr ?_
  exact ⟨rfl, trivial⟩

end IceMarkets.Keeper
