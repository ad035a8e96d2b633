import IceMarkets.Indexer.Events
import Mathlib.Data.List.Pairwise

/-!
# IceMarkets.Indexer.Decoding

Which emitted events the indexer's decoder types.

A field is found under either of its names (`Emitted.field_eq`), so a kind is decoded when
every field its typing asks for is one its struct has. That is so for every kind but
`Buyback`, whose typing asks for a `gld_amount` that the program's event no longer has
(`decodes_iff`).
-/

namespace IceMarkets.Indexer

open PegDesk (symbolLen)

/-! ### Names -/

theorem canonicalName_name (e : Emitted) : canonicalName e.name = e.name := by
  cases e <;> simp only [Emitted.name] <;> decide +kernel

theorem canonicalName_camelName (e : Emitted) : canonicalName e.camelName = e.name := by
  cases e <;> simp only [Emitted.name, Emitted.camelName] <;> decide +kernel

theorem canonicalName_coded (base58 : Pubkey → String) (casing : Casing) (e : Emitted) :
    canonicalName (e.coded base58 casing).name = e.name := by
  unfold Emitted.coded
  split
  · exact canonicalName_camelName e
  · exact canonicalName_name e

/-- Neither spelling of a name is one of the other's. -/
def Apart (n n' : String × String) : Prop :=
  n.1 ≠ n'.1 ∧ n.2 ≠ n'.2 ∧ n.1 ≠ n'.2 ∧ n.2 ≠ n'.1

instance : DecidableRel Apart := fun n n' =>
  inferInstanceAs (Decidable (n.1 ≠ n'.1 ∧ n.2 ≠ n'.2 ∧ n.1 ≠ n'.2 ∧ n.2 ≠ n'.1))

instance : Std.Symm Apart where
  symm _ _ h := ⟨h.1.symm, h.2.1.symm, h.2.2.2.symm, h.2.2.1.symm⟩

/-- A struct's fields can be told apart under either spelling. -/
def WellNamed (names : List (String × String)) : Prop :=
  (∀ n ∈ names, n.2 = camel n.1) ∧ names.Pairwise Apart

instance (names : List (String × String)) : Decidable (WellNamed names) :=
  inferInstanceAs (Decidable ((∀ n ∈ names, n.2 = camel n.1) ∧ names.Pairwise Apart))

theorem wellNamed_fields (base58 : Pubkey → String) (e : Emitted) :
    WellNamed ((e.fields base58).map fun f => (f.snake, f.camel)) := by
  cases e <;> simp only [Emitted.fields, List.map_cons, List.map_nil] <;> decide +kernel

/-- The entry of a name that is first in a list, and of no other. -/
theorem lookup_of_mem {fs : List Field} {name : Field → String}
    (h : fs.Pairwise fun f g => name f ≠ name g) {f : Field} (hf : f ∈ fs) :
    (fs.map fun f => (name f, f.value)).lookup (name f) = some f.value := by
  induction fs with
  | nil => cases hf
  | cons g fs ih =>
      rw [List.pairwise_cons] at h
      rcases List.mem_cons.mp hf with rfl | hf
      · simp
      · have hne : name f ≠ name g := (h.1 f hf).symm
        rw [List.map_cons, List.lookup_cons, beq_false_of_ne hne]
        exact ih h.2 hf

theorem lookup_eq_none {fs : List Field} {name : Field → String} {key : String}
    (h : ∀ f ∈ fs, name f ≠ key) : (fs.map fun f => (name f, f.value)).lookup key = none := by
  rw [List.lookup_eq_none_iff]
  intro x hx
  obtain ⟨f, hf, rfl⟩ := List.mem_map.mp hx
  simpa using (h f hf).symm

@[simp] theorem Emitted.coded_program (base58 : Pubkey → String) (casing : Casing) (e : Emitted) :
    (e.coded base58 casing).program = e.program := rfl

section Fields

variable (base58 : Pubkey → String) (casing : Casing) (e : Emitted)

/-- Every field of an emitted event is found under its name in Rust. -/
theorem Emitted.field_eq {f : Field} (hf : f ∈ e.fields base58) :
    field (e.coded base58 casing).data f.snake = .ok f.value := by
  obtain ⟨hcamel, hdistinct⟩ := wellNamed_fields base58 e
  have heq : f.camel = camel f.snake := hcamel _ (List.mem_map.mpr ⟨f, hf, rfl⟩)
  have hpairwise := List.pairwise_map.mp hdistinct
  have hsnake : ((e.fields base58).map fun g => (g.snake, g.value)).lookup f.snake = some f.value :=
    lookup_of_mem (hpairwise.imp fun h => h.1) hf
  have hcamel : ((e.fields base58).map fun g => (g.camel, g.value)).lookup f.camel = some f.value :=
    lookup_of_mem (hpairwise.imp fun h => h.2.1) hf
  unfold field Emitted.coded
  cases hc : casing.camelFields with
  | false => simp [hsnake]
  | true =>
      by_cases hsame : f.snake = f.camel
      · rw [← hsame] at hcamel
        simp [hcamel]
      · -- in camel case no field has this one's name in Rust
        have hnone : ((e.fields base58).map fun g => (g.camel, g.value)).lookup f.snake = none := by
          refine lookup_eq_none ?_
          intro g hg
          by_cases hgf : (f.snake, f.camel) = (g.snake, g.camel)
          · rw [← (Prod.mk.inj hgf).2]
            exact fun h => hsame h.symm
          · have hapart := hdistinct.forall (List.mem_map.mpr ⟨f, hf, rfl⟩)
              (List.mem_map.mpr ⟨g, hg, rfl⟩) hgf
            exact hapart.2.2.1.symm
        simp [hnone, ← heq, hcamel]

/-- A name that is no field's, in either spelling, is missing. -/
theorem Emitted.field_missing {name : String}
    (h : ∀ f ∈ e.fields base58, f.snake ≠ name ∧ f.camel ≠ name ∧ f.snake ≠ camel name ∧
      f.camel ≠ camel name) :
    ∃ message, field (e.coded base58 casing).data name = .error message := by
  unfold field Emitted.coded
  cases hc : casing.camelFields with
  | false =>
      have h1 : ((e.fields base58).map fun f => (f.snake, f.value)).lookup name = none :=
        lookup_eq_none fun f hf => (h f hf).1
      have h2 : ((e.fields base58).map fun f => (f.snake, f.value)).lookup (camel name) = none :=
        lookup_eq_none fun f hf => (h f hf).2.2.1
      simp [h1, h2]
  | true =>
      have h1 : ((e.fields base58).map fun f => (f.camel, f.value)).lookup name = none :=
        lookup_eq_none fun f hf => (h f hf).2.1
      have h2 : ((e.fields base58).map fun f => (f.camel, f.value)).lookup (camel name) = none :=
        lookup_eq_none fun f hf => (h f hf).2.2.2
      simp [h1, h2]

end Fields

/-! ### Values -/

/-- A value of at most 32 bits is a number. -/
theorem asNumber_number {n : Nat} (h : n < 2 ^ 32) : asNumber (.number n) = .ok (n : Int) := by
  have hround : JsNumber.toNumber n = n := by
    unfold JsNumber.toNumber
    simp only [Nat.cast_nonneg, if_true, Int.toNat_natCast]
    rw [JsNumber.roundNat_of_lt (h.trans (by norm_num))]
  show Except.ok (JsNumber.toNumber n) = _
  rw [hround]

@[simp] theorem asNumber_u8 (v : UInt8) : asNumber (.number v.toNat) = .ok (v.toNat : Int) :=
  asNumber_number (v.toNat_lt.trans (by decide))

@[simp] theorem asNumber_u16 (v : UInt16) : asNumber (.number v.toNat) = .ok (v.toNat : Int) :=
  asNumber_number (v.toNat_lt.trans (by decide))

@[simp] theorem asNumber_u32 (v : UInt32) : asNumber (.number v.toNat) = .ok (v.toNat : Int) :=
  asNumber_number v.toNat_lt

@[simp] theorem asNumber_side (s : PegDesk.Side) :
    asNumber (.number (sideByte s)) = .ok (sideByte s : Int) :=
  asNumber_number (by cases s <;> decide)

@[simp] theorem asNumber_source (s : FeeRouter.FeeSource) :
    asNumber (.number (sourceByte s)) = .ok (sourceByte s : Int) :=
  asNumber_number (by cases s <;> decide)

@[simp] theorem asNumber_payout (k : Distributor.PayoutKind) :
    asNumber (.number (payoutByte k)) = .ok (payoutByte k : Int) :=
  asNumber_number (by cases k <;> decide)

@[simp] theorem oneOf_side (s : PegDesk.Side) (what : String) :
    oneOf (sideByte s) [0, 1] what = .ok (sideByte s : Int) := by
  cases s <;> rfl

@[simp] theorem oneOf_source (s : FeeRouter.FeeSource) (what : String) :
    oneOf (sourceByte s) [0, 1, 2] what = .ok (sourceByte s : Int) := by
  cases s <;> rfl

@[simp] theorem oneOf_payout (k : Distributor.PayoutKind) (what : String) :
    oneOf (payoutByte k) [0, 1] what = .ok (payoutByte k : Int) := by
  cases k <;> rfl

@[simp] theorem asKey_publicKey (s : String) : asKey (.publicKey s) = .ok s := rfl

@[simp] theorem asBigInt_bn (n : Int) : asBigInt (.bn n) = .ok n := rfl

@[simp] theorem asBytes_array (bytes : List UInt8) : asBytes (.array bytes) = .ok bytes := rfl

/-- Two hexadecimal digits are a byte's only digits. -/
theorem hexDigit_injective : ∀ m < 16, ∀ n < 16, hexDigit m = hexDigit n → m = n := by
  decide +kernel

/-- No two byte strings have one text. -/
theorem bytesToHex_injective : Function.Injective bytesToHex := by
  intro b b' h
  unfold bytesToHex at h
  rw [String.ofList_inj] at h
  induction b generalizing b' with
  | nil =>
      cases b' with
      | nil => rfl
      | cons x b' => simp at h
  | cons x b ih =>
      cases b' with
      | nil => simp at h
      | cons y b' =>
          simp only [List.flatMap_cons, List.cons_append, List.nil_append, List.cons.injEq] at h
          obtain ⟨hhigh, hlow, h⟩ := h
          have hx := x.toNat_lt
          have hy := y.toNat_lt
          have hhigh := hexDigit_injective _ (by omega) _ (by omega) hhigh
          have hlow := hexDigit_injective _ (by omega) _ (by omega) hlow
          have hxy : x.toNat = y.toNat := by omega
          rw [UInt8.toNat_inj.mp hxy, ih h]

theorem toNat_charOfNat : ∀ n < 256, (Char.ofNat n).toNat = n := by
  decide +kernel

/-- A valid symbol is its text and NULs. -/
theorem symbolFromBytes_padded {symbol : Vector UInt8 symbolLen}
    (h : PegDesk.validateSymbol symbol = true) :
    ∃ pad, (symbolFromBytes symbol.toList).toList.map (fun c => UInt8.ofNat c.toNat) ++
      List.replicate pad 0 = symbol.toList := by
  unfold PegDesk.validateSymbol at h
  simp only [decide_eq_true_eq] at h
  obtain ⟨-, -, hpad⟩ := h
  refine ⟨(symbol.toList.dropWhile (· ≠ 0)).length, ?_⟩
  have hbytes : (symbolFromBytes symbol.toList).toList.map (fun c => UInt8.ofNat c.toNat) =
      symbol.toList.takeWhile (· ≠ 0) := by
    unfold symbolFromBytes
    rw [String.toList_ofList, List.map_map]
    refine (List.map_congr_left ?_).trans (List.map_id _)
    intro b _
    have hchar := toNat_charOfNat b.toNat b.toNat_lt
    simp only [Function.comp_apply, hchar, UInt8.ofNat_toNat, id_eq]
  rw [hbytes, ← List.eq_replicate_of_mem hpad, List.takeWhile_append_dropWhile]

/-! ### Typing -/

/-- `ev` is `e` with each stored field: a key as its base58 text, a symbol as its text without
the padding, a root as its digits. `gldAmount` is no field of the program's `Buyback`. -/
def Carries (base58 : Pubkey → String) : Emitted → IcemarketsEvent → Prop
  | .commodityCreated e, ev => ∃ symbol : String,
      (∃ pad, symbol.toList.map (fun c => UInt8.ofNat c.toNat) ++ List.replicate pad 0 =
        e.symbol.toList) ∧
      ev = .commodityCreated (base58 e.commodity) symbol (base58 e.mint)
  | .trade e, ev => ev = .trade (base58 e.commodity) (base58 e.user) (sideByte e.side) e.usdc.toNat
      e.coin.toNat e.price.toNat e.spreadBps.toNat
  | .priceUpdated e, ev =>
      ev = .priceUpdated (base58 e.commodity) e.price.toNat e.conf.toNat e.publishTime
  | .statusChanged e, ev => ev = .statusChanged (base58 e.commodity) e.status.toNat
  | .poolRegistered e, ev => ev = .poolRegistered (base58 e.pool) (base58 e.baseMint)
      (base58 e.quoteMint) (base58 e.commodity) e.feeBps.toNat
  | .feesClaimed e, ev => ev = .feesClaimed (base58 e.pool) (sourceByte e.source)
      e.quoteAmount.toNat e.baseAmount.toNat
  | .feesSplit e, ev =>
      ev = .feesSplit (base58 e.pool) e.holders.toNat e.buyback.toNat e.protocol.toNat
  | .migrationRecorded e, ev => ev = .migrationRecorded (base58 e.pool) (base58 e.dammPool)
  | .epochOpened e, ev =>
      ev = .epochOpened (base58 e.pool) e.index.toNat e.total.toNat e.holders.toNat
  | .payout e, ev => ev = .payout (base58 e.pool) (base58 e.epoch) (base58 e.wallet)
      (base58 e.coinMint) e.amount.toNat (payoutByte e.kind)
  | .epochFinalized e, ev => ∃ root : String,
      (∀ bytes, bytesToHex bytes = root ↔ bytes = e.merkleRoot.bytes) ∧
      ev = .epochFinalized (base58 e.pool) e.index.toNat root e.remainder.toNat
  | .buyback e, ev => ∃ gldAmount,
      ev = .buyback (base58 e.coin) e.coinAmount.toNat gldAmount e.iceBurned.toNat

/-- The event's kind is the one whose typing fails. -/
def Emitted.IsBuyback : Emitted → Prop
  | .buyback _ => True
  | _ => False

section Typing

variable (base58 : Pubkey → String) (casing : Casing)

/-- Every kind but `Buyback` is typed. -/
theorem Emitted.typed (e : Emitted) (h : ¬ e.IsBuyback) :
    ∃ ev, toIcemarketsEvent (e.coded base58 casing) = .ok (some ev) ∧ Carries base58 e ev := by
  have hname := canonicalName_coded base58 casing e
  have hfield : ∀ f ∈ e.fields base58, field (e.coded base58 casing).data f.snake = .ok f.value :=
    fun _ hf => e.field_eq base58 casing hf
  cases e with
  | commodityCreated e =>
      refine ⟨_, ?_, symbolFromBytes e.symbol.toList, symbolFromBytes_padded e.valid, rfl⟩
      simp only [fields, List.forall_mem_cons] at hfield
      simp [toIcemarketsEvent, hname, name, program, hfield, ok_bind]
  | epochFinalized e =>
      refine ⟨_, ?_, bytesToHex e.merkleRoot.bytes, fun bytes => bytesToHex_injective.eq_iff, rfl⟩
      simp only [fields, List.forall_mem_cons] at hfield
      simp [toIcemarketsEvent, hname, name, program, hfield, ok_bind]
  | buyback e => exact absurd trivial h
  | _ e =>
      refine ⟨_, ?_, rfl⟩
      simp only [fields, List.forall_mem_cons] at hfield
      simp [toIcemarketsEvent, hname, name, program, hfield, ok_bind]

/-- The typing of a `Buyback` misses its `gld_amount`. -/
theorem Emitted.untyped (e : BuybackEvent) :
    ∃ message, toIcemarketsEvent ((Emitted.buyback e).coded base58 casing) = .error message := by
  have hname := canonicalName_coded base58 casing (.buyback e)
  have hfield : ∀ f ∈ (Emitted.buyback e).fields base58, field _ f.snake = .ok f.value :=
    fun _ hf => (Emitted.buyback e).field_eq base58 casing hf
  have hcamel : camel "gld_amount" = "gldAmount" := by decide +kernel
  obtain ⟨message, hmissing⟩ := @Emitted.field_missing base58 casing (.buyback e) "gld_amount"
    (by simp [fields, hcamel])
  simp only [fields, List.forall_mem_cons] at hfield
  refine ⟨message, ?_⟩
  simp [toIcemarketsEvent, hname, name, program, hfield, hmissing, ok_bind]
  rfl

/-- An event is typed with the emitted values, and kept by `decodeAnchorEvents` whatever else the
logs hold, exactly when it is not a `Buyback`. -/
theorem decodes_iff (e : Emitted) :
    (∃ ev, toIcemarketsEvent (e.coded base58 casing) = .ok (some ev) ∧ Carries base58 e ev ∧
      ∀ loaded parseLogs, e.program ∈ loaded → e.coded base58 casing ∈ parseLogs e.program →
        ev ∈ decodeAnchorEvents loaded parseLogs) ↔ ¬ e.IsBuyback := by
  constructor
  · intro h hbuyback
    obtain ⟨ev, h, -⟩ := h
    cases e with
    | buyback e =>
        obtain ⟨message, herror⟩ := Emitted.untyped base58 casing e
        rw [herror] at h
        cases h
    | _ => exact hbuyback
  · intro hkind
    obtain ⟨ev, htyped, hcarries⟩ := e.typed base58 casing hkind
    refine ⟨ev, htyped, hcarries, ?_⟩
    intro loaded parseLogs hloaded hraw
    refine List.mem_flatMap.mpr ⟨e.program, hloaded, List.mem_filterMap.mpr ⟨_, hraw, ?_⟩⟩
    rw [htyped]

end Typing

/-- A `Buyback` of one coin unit, for the coin whose address is all zeros. -/
def sampleBuyback : BuybackEvent where
  coin := Pubkey.default
  coinAmount := 1000000
  usdcOut := 2000000
  iceBurned := 3000000
  rate := 1500000
  anchor := 1500000

/-- The sample's typing fails, and the decoder drops it. -/
theorem sampleBuyback_dropped :
    let raw := (Emitted.buyback sampleBuyback).coded (fun _ => "11111111111111111111111111111111")
      ⟨false, false⟩
    (¬ ∃ ev, toIcemarketsEvent raw = .ok (some ev)) ∧
      decodeAnchorEvents [.buyback] (fun _ => [raw]) = [] := by
  intro raw
  have herror : toIcemarketsEvent raw =
    .error ("event field \"gld_amount\" missing (have: coin, " ++
      "coin_amount, usdc_out, ice_burned, rate, anchor)") := by decide +kernel
  refine ⟨?_, by decide +kernel⟩
  intro h
  obtain ⟨ev, h⟩ := h
  rw [herror] at h
  cases h

end IceMarkets.Indexer
