import IceMarkets.PegDesk.Run

/-!
# IceMarkets.PegDesk.Confidence

The confidence of a EUR-quoted commodity is the sum of two terms: that of its own feed
at the FX price, and its price at the confidence of the FX feed. Both go through
`scale_quote`, but a failure of the second counts as zero instead of failing the read.

`normalized` is the exact value at 1e8, however large. An accepted read covers both
terms exactly when the failure that was swallowed, if any, was of a term of zero.
-/

namespace IceMarkets.PegDesk

/-! ### The exact terms -/

/-- `value * 10^expo` at exponent -8, rounded down. -/
def normalized (value : UInt64) (expo : Int) : Nat :=
  if 0 ≤ expo + 8 then value.toNat * 10 ^ (expo + 8).toNat
    else value.toNat / 10 ^ (-(expo + 8)).toNat

/-- `conf_eur * fx`. -/
def eurTerm (raw fx : RawPrice) : Nat :=
  normalized raw.conf raw.expo * normalized fx.price fx.expo / priceScale

/-- `price_eur * conf_fx`. -/
def fxTerm (raw fx : RawPrice) : Nat :=
  normalized raw.price raw.expo * normalized fx.conf fx.expo / priceScale

/-- A confidence that covers both terms, which fit its representation. -/
structure Covers (raw fx : RawPrice) (conf : UInt64) : Prop where
  eur_fits : eurTerm raw fx < 2 ^ 64
  fx_fits : fxTerm raw fx < 2 ^ 64
  le : eurTerm raw fx + fxTerm raw fx ≤ conf.toNat

/-- The FX term is zero, or it and the FX confidence fit a `u64`. -/
def FxTermFits (raw fx : RawPrice) : Prop :=
  fxTerm raw fx = 0 ∨ normalized fx.conf fx.expo < 2 ^ 64 ∧ fxTerm raw fx < 2 ^ 64

instance (raw fx : RawPrice) : Decidable (FxTermFits raw fx) :=
  inferInstanceAs (Decidable (_ ∨ _))

/-! ### Scaling -/

/-- The exponents `normalize_to_1e8` accepts. -/
def Scalable (expo : Int) : Prop := -30 ≤ expo + 8 ∧ expo + 8 ≤ 30

theorem normalizeTo1e8_eq_some {value n : UInt64} {expo : Int} :
    normalizeTo1e8 value expo = some n ↔ Scalable expo ∧ n.toNat = normalized value expo := by
  have hn := n.toNat_lt
  unfold normalizeTo1e8 normalized Scalable
  dsimp only
  by_cases hrange : -30 ≤ expo + 8 ∧ expo + 8 ≤ 30
  · rw [if_neg (by omega), if_neg (not_not.mpr hrange)]
    split_ifs
    · simp only [Option.bind_eq_bind, Option.bind_eq_some_iff, checkedMul128_eq_some, toU64_eq_some]
      constructor
      · intro h
        obtain ⟨m, ⟨-, rfl⟩, h⟩ := h
        exact ⟨hrange, h⟩
      · intro hx
        obtain ⟨-, h⟩ := hx
        exact ⟨_, ⟨by unfold u128Max; omega, rfl⟩, h⟩
    · rw [toU64_eq_some]
      exact (and_iff_right hrange).symm
  · rw [if_pos hrange, ite_self]
    simp [hrange]

theorem scaleQuote_eur_eq_some {price fx q : UInt64} {expo fxExpo : Int} :
    scaleQuote price expo quoteEur fx fxExpo = some q ↔
      (∃ p, normalizeTo1e8 price expo = some p) ∧ (∃ f, normalizeTo1e8 fx fxExpo = some f ∧ f ≠ 0) ∧
        q.toNat = normalized price expo * normalized fx fxExpo / priceScale := by
  have husd : quoteEur ≠ quoteUsd := by decide
  have husc : quoteEur ≠ quoteUsc := by decide
  unfold scaleQuote
  simp only [husd, husc, if_false, if_true, Option.bind_eq_bind, Option.bind_eq_some_iff]
  constructor
  · intro h
    obtain ⟨p, hp, f, hf, h⟩ := h
    split_ifs at h with hzero
    obtain ⟨m, hm, hq⟩ := Option.bind_eq_some_iff.mp h
    obtain ⟨-, rfl⟩ := checkedMul128_eq_some.mp hm
    rw [toU64_eq_some, (normalizeTo1e8_eq_some.mp hp).2, (normalizeTo1e8_eq_some.mp hf).2] at hq
    exact ⟨⟨p, hp⟩, ⟨f, hf, hzero⟩, hq⟩
  · intro hx
    obtain ⟨⟨p, hp⟩, ⟨f, hf, hzero⟩, hq⟩ := hx
    refine ⟨p, hp, f, hf, ?_⟩
    rw [if_neg hzero, checkedMul128_of_lt p.toNat_lt f.toNat_lt, Option.bind_some, toU64_eq_some,
      (normalizeTo1e8_eq_some.mp hp).2, (normalizeTo1e8_eq_some.mp hf).2]
    exact hq

/-! ### Accepted reads -/

/-- What an accepted read of a EUR-quoted commodity computed. -/
structure EurRead (env : Env) (c : Commodity) (feed fxInfo : AccountInfo)
    (maxAge : UInt32) (now : Int)
    (raw fx : RawPrice) (out : OraclePrice) : Prop where
  feedRead : readPythRaw env feed c.feedAccount c.feedId maxAge c.pythMinSignatures now = .ok raw
  fxRead : readPythRaw env fxInfo c.fxFeedAccount c.fxFeedId maxAge c.pythMinSignatures now = .ok fx
  price : scaleQuote raw.price raw.expo quoteEur fx.price fx.expo = some out.price
  conf : ∃ confA, scaleQuote raw.conf raw.expo quoteEur fx.price fx.expo = some confA ∧
    out.conf.toNat =
      confA.toNat + ((scaleQuote raw.price raw.expo quoteEur fx.conf fx.expo).getD 0).toNat

theorem readPythCommodity_eur {env : Env} {c : Commodity} {feed : AccountInfo}
    {fxFeed : Option AccountInfo}
    {maxAge : UInt32} {now : Int} {out : OraclePrice} (hq : c.quoteScale = quoteEur)
    (h : readPythCommodity env c feed fxFeed maxAge now = .ok out) :
    ∃ fxInfo raw fx, fxFeed = some fxInfo ∧ EurRead env c feed fxInfo maxAge now raw fx out := by
  unfold readPythCommodity at h
  obtain ⟨raw, hraw, h⟩ := bind_eq_ok.mp h
  rw [if_neg (not_not.mpr hq)] at h
  obtain ⟨fxInfo, hinfo, h⟩ := okOr_bind_eq_ok.mp h
  obtain ⟨fx, hfx, h⟩ := bind_eq_ok.mp h
  obtain ⟨price, hprice, h⟩ := okOr_bind_eq_ok.mp h
  obtain ⟨confA, hconfA, h⟩ := okOr_bind_eq_ok.mp h
  obtain ⟨conf, hconf, h⟩ := okOr_bind_eq_ok.mp h
  cases h
  exact ⟨fxInfo, raw, fx, hinfo, hraw, hfx, hprice, confA, hconfA, checkedAdd_eq_some.mp hconf⟩

section Terms

variable {env : Env} {c : Commodity} {feed fxInfo : AccountInfo} {maxAge : UInt32} {now : Int}
  {raw fx : RawPrice} {out : OraclePrice}

/-- The FX term is scaled where it and its factor fit, unless that factor is zero. -/
theorem EurRead.exists_fxTerm (h : EurRead env c feed fxInfo maxAge now raw fx out)
    (hfit : normalized fx.conf fx.expo < 2 ^ 64 ∧ fxTerm raw fx < 2 ^ 64)
    (hpos : fxTerm raw fx ≠ 0) :
    ∃ confB, scaleQuote raw.price raw.expo quoteEur fx.conf fx.expo = some confB := by
  obtain ⟨hp, ⟨f, hf, -⟩, -⟩ := scaleQuote_eur_eq_some.mp h.price
  obtain ⟨f', hf'⟩ := exists_toU64 hfit.1
  obtain ⟨b, hb⟩ := exists_toU64 hfit.2
  rw [toU64_eq_some] at hf' hb
  refine ⟨b, scaleQuote_eur_eq_some.mpr ⟨hp, ⟨f', ?_, ?_⟩, hb⟩⟩
  · exact normalizeTo1e8_eq_some.mpr ⟨(normalizeTo1e8_eq_some.mp hf).1, hf'⟩
  · intro hx
    obtain rfl := hx
    have hzero : normalized fx.conf fx.expo = 0 := hf'.symm
    simp [fxTerm, hzero] at hpos

/-- An accepted read covers both terms exactly where the FX term fits. -/
theorem EurRead.covers_iff (h : EurRead env c feed fxInfo maxAge now raw fx out) :
    Covers raw fx out.conf ↔ FxTermFits raw fx := by
  obtain ⟨confA, hA, hconf⟩ := h.conf
  obtain ⟨-, -, hA⟩ := scaleQuote_eur_eq_some.mp hA
  have hlt := out.conf.toNat_lt
  have hterm : eurTerm raw fx = confA.toNat := hA.symm
  cases hB : scaleQuote raw.price raw.expo quoteEur fx.conf fx.expo with
  | some confB =>
      -- the term was scaled: it fits and it was added
      obtain ⟨-, ⟨f, hf, -⟩, hfxTerm⟩ := scaleQuote_eur_eq_some.mp hB
      have hfactor := (normalizeTo1e8_eq_some.mp hf).2
      have hfx : fxTerm raw fx = confB.toNat := hfxTerm.symm
      rw [hB, Option.getD_some] at hconf
      have := confB.toNat_lt
      have := f.toNat_lt
      exact ⟨fun _ => Or.inr ⟨by omega, by omega⟩, fun _ => ⟨by omega, by omega, by omega⟩⟩
  | none =>
      -- the failure was counted as zero
      rw [hB, Option.getD_none, UInt64.toNat_zero] at hconf
      constructor
      · intro hcovers
        have := hcovers.le
        exact Or.inl (by omega)
      · intro hfits
        have hzero : fxTerm raw fx = 0 := by
          rcases hfits with hzero | hfit
          · exact hzero
          · by_contra hpos
            obtain ⟨confB, hsome⟩ := h.exists_fxTerm hfit hpos
            rw [hB] at hsome
            cases hsome
        exact ⟨by omega, by omega, by omega⟩

end Terms

/-- Every accepted pair of updates of a EUR-quoted commodity gives a confidence that covers
both terms, exactly where the FX term fits. -/
theorem conf_covers_iff {env : Env} {c : Commodity} {feed : AccountInfo}
    {fxFeed : Option AccountInfo}
    {maxAge : UInt32} {now : Int} {out : OraclePrice} (hq : c.quoteScale = quoteEur)
    (h : readPythCommodity env c feed fxFeed maxAge now = .ok out) :
    ∃ fxInfo raw fx, fxFeed = some fxInfo ∧
      readPythRaw env feed c.feedAccount c.feedId maxAge c.pythMinSignatures now = .ok raw ∧
      readPythRaw env fxInfo c.fxFeedAccount c.fxFeedId maxAge c.pythMinSignatures now = .ok fx ∧
      (Covers raw fx out.conf ↔ FxTermFits raw fx) := by
  obtain ⟨fxInfo, raw, fx, hinfo, hread⟩ := readPythCommodity_eur hq h
  exact ⟨fxInfo, raw, fx, hinfo, hread.feedRead, hread.fxRead, hread.covers_iff⟩

namespace SamplePyth

/-- The price of a fully verified update of the feed that is not older than allowed. -/
def getPrice (u : PriceUpdateV2) (now : Int) (maxAge : UInt32) (feedId : Bytes32) :
    Option PythPrice :=
  if u.verificationLevel = .full ∧ u.priceMessage.feedId = feedId ∧
      now ≤ u.priceMessage.publishTime + maxAge.toNat then
    some { price := u.priceMessage.price, conf := u.priceMessage.conf
           exponent := u.priceMessage.exponent, publishTime := u.priceMessage.publishTime }
  else none

def env : Env where
  programId := Bytes32.fill 1
  pythReceiverId := Bytes32.fill 2
  pyth := { getPriceNoOlderThan := getPrice
            getPriceNoOlderThanWithCustomVerificationLevel := fun u now maxAge feedId _ =>
              getPrice u now maxAge feedId }

/-- A commodity quoted in EUR. -/
def commodity : Commodity :=
  { Sample.commodity with
    oracleKind := OracleKind.pythPull.toU8, quoteScale := quoteEur
    feedId := Bytes32.fill 20, feedAccount := Bytes32.fill 21
    fxFeedId := Bytes32.fill 22, fxFeedAccount := Bytes32.fill 23 }

def update (key feedId : Bytes32) (price : Int) (conf : UInt64) : AccountInfo where
  key := key
  owner := Bytes32.fill 2
  data := .priceUpdate {
    verificationLevel := .full
    priceMessage := { feedId, price, conf, exponent := -8, publishTime := 1000 } }

/-- 100000 EUR, within 10 EUR. -/
def feed : AccountInfo := update (Bytes32.fill 21) (Bytes32.fill 20) 10000000000000 1000000000

/-- 1.1 USD to the EUR, within the given confidence. -/
def fxFeed (conf : UInt64) : AccountInfo :=
  update (Bytes32.fill 23) (Bytes32.fill 22) 110000000 conf

def raw : RawPrice :=
  { price := 10000000000000, conf := 1000000000, expo := -8, publishTime := 1000 }

def fx (conf : UInt64) : RawPrice :=
  { price := 110000000, conf := conf, expo := -8, publishTime := 1000 }

end SamplePyth

/-- A tenth of a cent of FX confidence adds 100 USD to the 11 USD of the feed's own. -/
theorem conf_covers_iff_sample :
    ∃ fxInfo raw fx, some (SamplePyth.fxFeed 100000) = some fxInfo ∧
      readPythRaw SamplePyth.env SamplePyth.feed (Bytes32.fill 21)
        (Bytes32.fill 20) 60 0 1030 = .ok raw ∧
      readPythRaw SamplePyth.env fxInfo (Bytes32.fill 23) (Bytes32.fill 22) 60 0 1030 = .ok fx ∧
      (Covers raw fx 11100000000 ↔ FxTermFits raw fx) := by
  have hread : readPythCommodity SamplePyth.env SamplePyth.commodity SamplePyth.feed
      (some (SamplePyth.fxFeed 100000)) 60 1030 =
        .ok { price := 11000000000000, conf := 11100000000,
              publishTime := 1000 } := by decide +kernel
  exact conf_covers_iff rfl hread

/-- An FX confidence of 2^63 is wider than anything, but the confidence read is that of the
feed alone. -/
theorem conf_understated :
    ∃ out, readPythCommodity SamplePyth.env SamplePyth.commodity SamplePyth.feed
        (some (SamplePyth.fxFeed 9223372036854775808)) 60 1030 = .ok out ∧
      readPythRaw SamplePyth.env SamplePyth.feed SamplePyth.commodity.feedAccount
        SamplePyth.commodity.feedId
        60 SamplePyth.commodity.pythMinSignatures 1030 = .ok SamplePyth.raw ∧
      readPythRaw SamplePyth.env
        (SamplePyth.fxFeed 9223372036854775808) SamplePyth.commodity.fxFeedAccount
        SamplePyth.commodity.fxFeedId 60 SamplePyth.commodity.pythMinSignatures 1030 =
          .ok (SamplePyth.fx 9223372036854775808) ∧
      out.conf = 1100000000 ∧ ¬ Covers SamplePyth.raw
        (SamplePyth.fx 9223372036854775808) out.conf := by
  refine ⟨{ price := 11000000000000, conf := 1100000000, publishTime := 1000 }, by decide +kernel,
    by decide +kernel, by decide +kernel, rfl, ?_⟩
  intro h
  exact absurd h.fx_fits (by decide +kernel)

end IceMarkets.PegDesk
