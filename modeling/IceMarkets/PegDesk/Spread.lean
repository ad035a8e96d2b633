import IceMarkets.PegDesk.Pricing
import Mathlib.Algebra.Order.Floor.Div

/-!
# IceMarkets.PegDesk.Spread

The effective spread is a clamped sum of three components, doubled below the reserve
warning ratio. Each component moves one way with each input, so the spread does, and
what it does to a price follows: the ask moves up and the bid down as it widens.
-/

namespace IceMarkets.PegDesk

/-! ### Definitions -/

/-- The age penalty of the program. -/
def agePenalty (age maxAge base : Nat) : Nat :=
  if maxAge / 2 < age ∧ maxAge / 2 < maxAge then
    (ceilDiv (base * (min age maxAge - maxAge / 2)) (maxAge - maxAge / 2)).getD 0
  else 0

/-- The confidence term of the program. -/
def confTerm (conf price confMult : Nat) : Nat :=
  (ceilDiv (confMult * conf * 100) price).getD maxSpreadBps.toNat

/-- The arguments of `effective_spread_bps`. -/
structure SpreadInput where
  base : UInt16
  closed : UInt16
  confMult : UInt16
  conf : UInt64
  price : UInt64
  age : UInt64
  maxAge : UInt32
  status : UInt8
  reserveRatio : UInt64
  warn : UInt16
  deriving DecidableEq, Repr

def SpreadInput.spread (x : SpreadInput) : UInt16 :=
  effectiveSpreadBps x.base x.closed x.confMult x.conf x.price x.age x.maxAge x.status
    x.reserveRatio
    x.warn

/-- The spread of the market's status. -/
def SpreadInput.statusSpread (x : SpreadInput) : Nat :=
  (if x.status = statusClosed then x.closed else x.base).toNat

/-- What the reserve warning multiplies the spread by. -/
def SpreadInput.warning (x : SpreadInput) : Nat :=
  if x.reserveRatio.toNat < x.warn.toNat then 2 else 1

/-- No input of `y` narrows the spread of `x`. A price and a maximal age may also stay
what they are where they are zero. -/
structure SpreadInput.Wider (x y : SpreadInput) : Prop where
  base : x.base ≤ y.base
  closed : x.closed ≤ y.closed
  confMult : x.confMult ≤ y.confMult
  conf : x.conf ≤ y.conf
  age : x.age ≤ y.age
  warn : x.warn ≤ y.warn
  price : y.price = x.price ∨ 0 < y.price ∧ y.price ≤ x.price
  reserveRatio : y.reserveRatio ≤ x.reserveRatio
  maxAge : y.maxAge = x.maxAge ∨ 0 < y.maxAge ∧ y.maxAge ≤ x.maxAge
  status : y.status = x.status

/-- `ceil_div` with its addition checked. -/
def checkedCeilDiv (n d : Nat) : Option Nat :=
  if d = 0 then none else checkedAdd128 (n / d) (if n % d = 0 then 0 else 1)

/-- The confidence term with its products and its rounding checked. -/
def SpreadInput.checkedConfTerm (x : SpreadInput) : Option Nat := do
  let n ← checkedMul128 (← checkedMul128 x.confMult.toNat x.conf.toNat) 100
  checkedCeilDiv n x.price.toNat

/-- The age penalty with its product and its rounding checked. -/
def SpreadInput.checkedAgePenalty (x : SpreadInput) : Option Nat :=
  let maxAge := x.maxAge.toNat
  let half := maxAge / 2
  if half < x.age.toNat ∧ half < maxAge then do
    let n ← checkedMul128 x.base.toNat (min x.age.toNat maxAge - half)
    checkedCeilDiv n (maxAge - half)
  else some 0

/-- `effective_spread_bps` with every `u128` operation checked. -/
def SpreadInput.checkedSpread (x : SpreadInput) : Option UInt16 :=
  if x.price = 0 then some maxSpreadBps
  else do
    let s ← checkedAdd128 x.statusSpread (← x.checkedConfTerm)
    let s ← checkedAdd128 s (← x.checkedAgePenalty)
    let s ← checkedMul128 s x.warning
    some (UInt16.ofNat (min s maxSpreadBps.toNat))

/-! ### The components -/

theorem ceilDiv_eq {n d : Nat} (hd : 0 < d) : ceilDiv n d = some (n ⌈/⌉ d) := by
  have hle := le_smul_ceilDiv (b := n) hd
  rw [smul_eq_mul, Nat.mul_comm] at hle
  rw [ceilDiv_eq_some]
  refine ⟨hd, hle, ?_⟩
  rw [Nat.ceilDiv_eq_add_pred_div]
  have := Nat.div_mul_le_self (n + d - 1) d
  omega

/-- Quotients rounded up compare as the fractions do. -/
theorem ceilDiv_le_ceilDiv {n d n' d' : Nat} (hd : 0 < d) (hd' : 0 < d') (h : n * d' ≤ n' * d) :
    n ⌈/⌉ d ≤ n' ⌈/⌉ d' := by
  have hle := le_smul_ceilDiv (b := n') hd'
  rw [smul_eq_mul] at hle
  rw [ceilDiv_le_iff_le_mul hd]
  refine Nat.le_of_mul_le_mul_right ?_ hd'
  calc n * d' ≤ n' * d := h
    _ ≤ d' * (n' ⌈/⌉ d') * d := Nat.mul_le_mul_right d hle
    _ = d * (n' ⌈/⌉ d') * d' := by ring

theorem confTerm_eq {conf price confMult : Nat} (h : 0 < price) :
    confTerm conf price confMult = confMult * conf * 100 ⌈/⌉ price := by
  rw [confTerm, ceilDiv_eq h]
  rfl

theorem confTerm_mono {conf conf' price price' confMult confMult' : Nat} (hconf : conf ≤ conf')
    (hmult : confMult ≤ confMult') (hpos : 0 < price') (hprice : price' ≤ price) :
    confTerm conf price confMult ≤ confTerm conf' price' confMult' := by
  rw [confTerm_eq (hpos.trans_le hprice), confTerm_eq hpos]
  refine ceilDiv_le_ceilDiv (hpos.trans_le hprice) hpos ?_
  exact Nat.mul_le_mul (Nat.mul_le_mul_right _ (Nat.mul_le_mul hmult hconf)) hprice

theorem agePenalty_eq {age maxAge base : Nat} (h : maxAge / 2 < age) (hpos : 0 < maxAge) :
    agePenalty age maxAge base =
      base * (min age maxAge - maxAge / 2) ⌈/⌉ (maxAge - maxAge / 2) := by
  rw [agePenalty, if_pos ⟨h, by omega⟩, ceilDiv_eq (by omega)]
  rfl

theorem agePenalty_eq_zero {age maxAge base : Nat} (h : ¬ (maxAge / 2 < age ∧ 0 < maxAge)) :
    agePenalty age maxAge base = 0 := by
  rw [agePenalty, if_neg (by omega)]

/-- The age component never exceeds the base spread. -/
theorem agePenalty_le (age maxAge base : Nat) : agePenalty age maxAge base ≤ base := by
  by_cases h : maxAge / 2 < age ∧ 0 < maxAge
  · rw [agePenalty_eq h.1 h.2, ceilDiv_le_iff_le_mul (by omega), Nat.mul_comm]
    exact Nat.mul_le_mul_right base (by omega)
  · rw [agePenalty_eq_zero h]
    exact Nat.zero_le _

/-- An older reading is not penalised less, nor one against a shorter maximal age. -/
theorem agePenalty_mono {age age' maxAge maxAge' base base' : Nat} (hage : age ≤ age')
    (hbase : base ≤ base') (hmax : maxAge' = maxAge ∨ 0 < maxAge' ∧ maxAge' ≤ maxAge) :
    agePenalty age maxAge base ≤ agePenalty age' maxAge' base' := by
  by_cases h : maxAge / 2 < age ∧ 0 < maxAge
  · have hpos : 0 < maxAge' := by omega
    rw [agePenalty_eq h.1 h.2, agePenalty_eq (by omega) hpos]
    refine ceilDiv_le_ceilDiv (by omega) (by omega) ?_
    -- the part of the window that has passed, as a fraction
    have hpart : (min age maxAge - maxAge / 2) * (maxAge' - maxAge' / 2) ≤
        (min age' maxAge' - maxAge' / 2) * (maxAge - maxAge / 2) := by
      rcases Nat.le_total maxAge' age' with hle | hle
      · rw [Nat.min_eq_right hle, Nat.mul_comm]
        exact Nat.mul_le_mul_left _ (by omega)
      · rw [Nat.min_eq_left hle]
        exact Nat.mul_le_mul (by omega) (by omega)
    calc base * (min age maxAge - maxAge / 2) * (maxAge' - maxAge' / 2)
        = base * ((min age maxAge - maxAge / 2) * (maxAge' - maxAge' / 2)) := Nat.mul_assoc _ _ _
      _ ≤ base' * ((min age' maxAge' - maxAge' / 2) * (maxAge - maxAge / 2)) :=
        Nat.mul_le_mul hbase hpart
      _ = base' * (min age' maxAge' - maxAge' / 2) * (maxAge - maxAge / 2) :=
        (Nat.mul_assoc _ _ _).symm
  · rw [agePenalty_eq_zero h]
    exact Nat.zero_le _

/-! ### The spread -/

/-- The program's spread: its saturating sums pass the ceiling only where the exact ones do. -/
theorem effectiveSpreadBps_toNat (base closed confMult : UInt16) (conf age : UInt64)
    {price : UInt64} (maxAge : UInt32) (status : UInt8) (reserveRatio : UInt64) (warn : UInt16)
    (hprice : price ≠ 0) :
    (effectiveSpreadBps base closed confMult conf price age maxAge status reserveRatio warn).toNat =
      min ((if reserveRatio.toNat < warn.toNat then 2 else 1) *
        ((if status = statusClosed then closed else base).toNat +
          confTerm conf.toNat price.toNat confMult.toNat +
          agePenalty age.toNat maxAge.toNat base.toNat)) 5000 := by
  have hmax : maxSpreadBps.toNat = 5000 := rfl
  have hround : ∀ n : Nat, (UInt16.ofNat (min n 5000)).toNat = min n 5000 := by
    intro n
    rw [UInt16.toNat_ofNat']
    omega
  unfold effectiveSpreadBps agePenalty confTerm saturatingAdd128 saturatingMul128 u128Max
  rw [if_neg hprice]
  dsimp only
  rw [hmax, hround]
  by_cases hage : maxAge.toNat / 2 < age.toNat ∧ maxAge.toNat / 2 < maxAge.toNat
  · simp only [hage, and_self, if_true]
    split_ifs <;> omega
  · simp only [hage, if_false]
    split_ifs <;> omega

namespace SpreadInput

variable {x y : SpreadInput}

/-- The spread before it is clamped. -/
def total (x : SpreadInput) : Nat :=
  x.warning * (x.statusSpread + confTerm x.conf.toNat x.price.toNat x.confMult.toNat +
    agePenalty x.age.toNat x.maxAge.toNat x.base.toNat)

theorem spread_toNat (h : x.price ≠ 0) : x.spread.toNat = min x.total maxSpreadBps.toNat :=
  effectiveSpreadBps_toNat _ _ _ _ _ _ _ _ _ h

theorem spread_of_price_zero (h : x.price = 0) : x.spread = maxSpreadBps := by
  rw [spread, effectiveSpreadBps, if_pos h]

theorem spread_le (x : SpreadInput) : x.spread.toNat ≤ maxSpreadBps.toNat := by
  by_cases h : x.price = 0
  · rw [spread_of_price_zero h]
  · rw [spread_toNat h]
    exact Nat.min_le_right _ _

/-- Every component moves with the inputs. -/
theorem Wider.total_le (h : x.Wider y) (hprice : x.price ≠ 0) : x.total ≤ y.total := by
  have hbase := UInt16.le_iff_toNat_le.mp h.base
  have hclosed := UInt16.le_iff_toNat_le.mp h.closed
  have hwarn := UInt16.le_iff_toNat_le.mp h.warn
  have hratio := UInt64.le_iff_toNat_le.mp h.reserveRatio
  have hx : 0 < x.price.toNat := Nat.pos_of_ne_zero fun h0 => hprice (UInt64.toNat_inj.mp h0)
  have hpos : 0 < y.price.toNat ∧ y.price.toNat ≤ x.price.toNat := by
    rcases h.price with heq | ⟨hpos, hle⟩
    · rw [heq]
      exact ⟨hx, le_rfl⟩
    · exact ⟨UInt64.lt_iff_toNat_lt.mp hpos, UInt64.le_iff_toNat_le.mp hle⟩
  have hmax : y.maxAge.toNat = x.maxAge.toNat ∨ 0 < y.maxAge.toNat ∧
    y.maxAge.toNat ≤ x.maxAge.toNat :=
    h.maxAge.imp (congrArg UInt32.toNat) fun ⟨hpos, hle⟩ =>
      ⟨UInt32.lt_iff_toNat_lt.mp hpos, UInt32.le_iff_toNat_le.mp hle⟩
  have hstatus : x.statusSpread ≤ y.statusSpread := by
    unfold statusSpread
    rw [h.status]
    split_ifs
    · exact hclosed
    · exact hbase
  have hwarning : x.warning ≤ y.warning := by
    unfold warning
    split_ifs <;> omega
  have hconf := confTerm_mono (UInt64.le_iff_toNat_le.mp h.conf)
    (UInt16.le_iff_toNat_le.mp h.confMult)
    hpos.1 hpos.2
  have hage := agePenalty_mono (UInt64.le_iff_toNat_le.mp h.age) hbase hmax
  exact Nat.mul_le_mul hwarning (Nat.add_le_add (Nat.add_le_add hstatus hconf) hage)

theorem Wider.price_eq_zero (h : x.Wider y) : y.price = 0 ↔ x.price = 0 := by
  rcases h.price with heq | ⟨hpos, hle⟩
  · rw [heq]
  · have hpos := UInt64.lt_iff_toNat_lt.mp hpos
    have hle := UInt64.le_iff_toNat_le.mp hle
    rw [← UInt64.toNat_inj, ← UInt64.toNat_inj]
    rw [UInt64.toNat_zero] at hpos ⊢
    omega

/-- The spread never narrows where no input does. -/
theorem Wider.spread_le (h : x.Wider y) : x.spread ≤ y.spread := by
  rw [UInt16.le_iff_toNat_le]
  by_cases hx : x.price = 0
  · rw [spread_of_price_zero hx, spread_of_price_zero (h.price_eq_zero.mpr hx)]
  · rw [spread_toNat hx, spread_toNat (mt h.price_eq_zero.mp hx)]
    exact min_le_min_right _ (h.total_le hx)

/-! ### No operation overflows -/

theorem checkedCeilDiv_eq {n d : Nat} (hd : 0 < d) (hn : n < u128Max) :
    checkedCeilDiv n d = some (n ⌈/⌉ d) := by
  have heq := ceilDiv_eq (n := n) hd
  unfold ceilDiv at heq
  unfold checkedCeilDiv
  rw [if_neg hd.ne'] at heq ⊢
  have hle := Nat.div_le_self n d
  rw [checkedAdd128, if_pos (by split_ifs <;> omega)]
  exact heq

theorem ceilDiv_le_self {n d : Nat} (hd : 0 < d) : n ⌈/⌉ d ≤ n := by
  rw [ceilDiv_le_iff_le_mul hd]
  exact Nat.le_mul_of_pos_left n hd

theorem checkedConfTerm_eq (hprice : 0 < x.price.toNat) :
    x.checkedConfTerm = some (confTerm x.conf.toNat x.price.toNat x.confMult.toNat) ∧
      confTerm x.conf.toNat x.price.toNat x.confMult.toNat < 2 ^ 100 := by
  have hfactors : x.confMult.toNat * x.conf.toNat ≤ 2 ^ 16 * 2 ^ 64 :=
    Nat.mul_le_mul x.confMult.toNat_lt.le x.conf.toNat_lt.le
  have hmul : checkedMul128 x.confMult.toNat x.conf.toNat =
    some (x.confMult.toNat * x.conf.toNat) :=
    checkedMul128_of_lt (x.confMult.toNat_lt.trans (by decide)) x.conf.toNat_lt
  have hpercent : checkedMul128 (x.confMult.toNat * x.conf.toNat) 100 =
      some (x.confMult.toNat * x.conf.toNat * 100) :=
    checkedMul128_eq_some.mpr ⟨by unfold u128Max; omega, rfl⟩
  have hle := ceilDiv_le_self (n := x.confMult.toNat * x.conf.toNat * 100) hprice
  rw [confTerm_eq hprice]
  refine ⟨?_, by omega⟩
  simp only [checkedConfTerm, hmul, hpercent, Option.bind_eq_bind, Option.bind_some]
  exact checkedCeilDiv_eq hprice (by unfold u128Max; omega)

theorem checkedAgePenalty_eq (x : SpreadInput) :
    x.checkedAgePenalty = some (agePenalty x.age.toNat x.maxAge.toNat x.base.toNat) := by
  have hbase := x.base.toNat_lt
  have hmax := x.maxAge.toNat_lt
  unfold checkedAgePenalty
  dsimp only
  split_ifs with h
  · have hover : min x.age.toNat x.maxAge.toNat - x.maxAge.toNat / 2 < 2 ^ 32 := by omega
    have hprod := Nat.mul_le_mul hbase.le hover.le
    have hmul := checkedMul128_of_lt (hbase.trans (by decide)) (hover.trans (by decide))
    simp only [hmul, Option.bind_eq_bind, Option.bind_some]
    rw [agePenalty_eq h.1 (by omega)]
    exact checkedCeilDiv_eq (by omega) (by unfold u128Max; omega)
  · rw [agePenalty_eq_zero (by omega)]

/-- With every operation checked the spread is the same. -/
theorem checkedSpread_eq (x : SpreadInput) : x.checkedSpread = some x.spread := by
  by_cases hzero : x.price = 0
  · rw [checkedSpread, if_pos hzero, spread_of_price_zero hzero]
  have hprice : 0 < x.price.toNat := Nat.pos_of_ne_zero fun h0 => hzero (UInt64.toNat_inj.mp h0)
  obtain ⟨hconf, hconfLt⟩ := checkedConfTerm_eq hprice
  have hage := agePenalty_le x.age.toNat x.maxAge.toNat x.base.toNat
  have hbase := x.base.toNat_lt
  have hstatus : x.statusSpread < 2 ^ 16 := by
    unfold statusSpread
    split_ifs
    · exact x.closed.toNat_lt
    · exact hbase
  have hwarning : x.warning ≤ 2 := by
    unfold warning
    split_ifs <;> omega
  have hsum : x.statusSpread + confTerm x.conf.toNat x.price.toNat x.confMult.toNat +
      agePenalty x.age.toNat x.maxAge.toNat x.base.toNat ≤ 2 ^ 101 := by omega
  have hprod := Nat.mul_le_mul hsum hwarning
  have hspread : UInt16.ofNat (min x.total maxSpreadBps.toNat) = x.spread := by
    rw [← spread_toNat hzero]
    exact UInt16.ofNat_toNat
  rw [checkedSpread, if_neg hzero, hconf, checkedAgePenalty_eq]
  simp only [Option.bind_eq_bind, Option.bind_some]
  rw [checkedAdd128, if_pos (by unfold u128Max; omega), Option.bind_some, checkedAdd128,
    if_pos (by unfold u128Max; omega), Option.bind_some,
    checkedMul128_eq_some.mpr ⟨by unfold u128Max; omega, rfl⟩, Option.bind_some, ← hspread, total,
    Nat.mul_comm x.warning]

end SpreadInput

/-! ### What it does to a price -/

section Prices

variable {price : UInt64} {spread spread' : UInt16}

theorem ask_mono {a a' : UInt64} (h : spread ≤ spread') (ha : ask price spread = some a)
    (ha' : ask price spread' = some a') : a.toNat ≤ a'.toNat := by
  have hmul := Nat.mul_le_mul_left price.toNat
    (Nat.add_le_add_left (UInt16.le_iff_toNat_le.mp h) bps)
  have hlt : a.toNat * bps < (a'.toNat + 1) * bps := by
    rw [Nat.add_mul, Nat.one_mul]
    calc a.toNat * bps < price.toNat * (bps + spread.toNat) + bps := (ask_eq_some.mp ha).2
      _ ≤ price.toNat * (bps + spread'.toNat) + bps := Nat.add_le_add_right hmul bps
      _ ≤ a'.toNat * bps + bps := Nat.add_le_add_right (ask_eq_some.mp ha').1 bps
  exact Nat.le_of_lt_succ (Nat.lt_of_mul_lt_mul_right hlt)

theorem bid_anti {b b' : UInt64} (h : spread ≤ spread') (hb : bid price spread = some b)
    (hb' : bid price spread' = some b') : b'.toNat ≤ b.toNat := by
  have hmul := Nat.mul_le_mul_left price.toNat
    (Nat.sub_le_sub_left (UInt16.le_iff_toNat_le.mp h) bps)
  have hlt : b'.toNat * bps < (b.toNat + 1) * bps :=
    calc b'.toNat * bps ≤ price.toNat * (bps - spread'.toNat) := (bid_eq_some.mp hb').1
      _ ≤ price.toNat * (bps - spread.toNat) := hmul
      _ < (b.toNat + 1) * bps := (bid_eq_some.mp hb).2
  exact Nat.le_of_lt_succ (Nat.lt_of_mul_lt_mul_right hlt)

/-- The bid is always defined. -/
theorem exists_bid (price : UInt64) (spread : UInt16) : ∃ b, bid price spread = some b := by
  have hle : price.toNat * (bps - spread.toNat) / bps ≤ price.toNat := by
    rw [Nat.div_le_iff_le_mul_add_pred (by decide), Nat.mul_comm bps]
    exact (Nat.mul_le_mul_left _ (Nat.sub_le _ _)).trans (Nat.le_add_right _ _)
  obtain ⟨b, hb⟩ := exists_toU64 (hle.trans_lt price.toNat_lt)
  rw [toU64_eq_some] at hb
  exact ⟨b, bid_eq_some.mpr ((div_eq_iff_bounds (by decide)).mp hb)⟩

/-- No more than half of a price is taken. -/
theorem bid_pos {b : UInt64} (h : spread.toNat ≤ maxSpreadBps.toNat) (hprice : 1 < price)
    (hb : bid price spread = some b) : 0 < b := by
  have hlt := (bid_eq_some.mp hb).2
  have hprice := UInt64.lt_iff_toNat_lt.mp hprice
  have hmax : maxSpreadBps.toNat = 5000 := rfl
  have hbps : bps = 10000 := rfl
  have hone : (1 : UInt64).toNat = 1 := rfl
  have hhalf : 2 * 5000 ≤ price.toNat * (bps - spread.toNat) := Nat.mul_le_mul (by omega) (by omega)
  rw [hbps] at hlt hhalf
  rw [UInt64.lt_iff_toNat_lt, UInt64.toNat_zero]
  omega

end Prices

/-- The effective spread is monotone and safe, and so are the prices made of it. -/
theorem effective_spread_safe :
    (∀ x : SpreadInput, x.checkedSpread = some x.spread ∧ x.spread ≤ maxSpreadBps ∧
      (x.price ≠ 0 → x.spread.toNat = min (x.warning * (x.statusSpread +
        confTerm x.conf.toNat x.price.toNat x.confMult.toNat +
        agePenalty x.age.toNat x.maxAge.toNat x.base.toNat)) maxSpreadBps.toNat) ∧
      agePenalty x.age.toNat x.maxAge.toNat x.base.toNat ≤ x.base.toNat) ∧
    (∀ x y : SpreadInput, x.Wider y → x.spread ≤ y.spread) ∧
    (∀ (x : SpreadInput) (a : UInt64), ask x.price x.spread = some a → x.price ≤ a) ∧
    (∀ x : SpreadInput, ∃ b, bid x.price x.spread = some b ∧ b ≤ x.price ∧ (1 < x.price → 0 < b)) ∧
    (∀ (price : UInt64) (spread spread' : UInt16) (a a' : UInt64), spread ≤ spread' →
      ask price spread = some a → ask price spread' = some a' →
        (a.toNat : Int) - price.toNat ≤ a'.toNat - price.toNat) ∧
    ∀ (price : UInt64) (spread spread' : UInt16) (b b' : UInt64), spread ≤ spread' →
      bid price spread = some b → bid price spread' = some b' →
        (price.toNat : Int) - b.toNat ≤ price.toNat - b'.toNat := by
  refine ⟨fun x => ⟨x.checkedSpread_eq, UInt16.le_iff_toNat_le.mpr x.spread_le, x.spread_toNat,
    agePenalty_le _ _ _⟩, fun x y h => h.spread_le, fun x a h =>
      UInt64.le_iff_toNat_le.mpr (le_ask h), ?_, ?_, ?_⟩
  · intro x
    obtain ⟨b, hb⟩ := exists_bid x.price x.spread
    exact ⟨b, hb, UInt64.le_iff_toNat_le.mpr (bid_le hb),
      fun hprice => bid_pos x.spread_le hprice hb⟩
  · intro price spread spread' a a' h ha ha'
    have := ask_mono h ha ha'
    omega
  · intro price spread spread' b b' h hb hb'
    have := bid_anti h hb hb'
    omega

namespace SampleSpread

/-- A fresh reading, and one three quarters of the maximal age old. -/
def fresh : SpreadInput where
  base := 20
  closed := 150
  confMult := 50
  conf := 200000000
  price := 200000000000
  age := 0
  maxAge := 60
  status := statusOpen
  reserveRatio := 10200
  warn := 10200

def aged : SpreadInput := { fresh with age := 45 }

theorem fresh_wider : fresh.Wider aged where
  base := by decide
  closed := by decide
  confMult := by decide
  conf := by decide
  age := by decide
  warn := by decide
  price := Or.inl rfl
  reserveRatio := by decide
  maxAge := Or.inl rfl
  status := rfl

end SampleSpread

/-- The aged reading widens the spread from 25 to 35 bps, the ask from 2005 to 2007 USD
and the bid from 1995 to 1993. -/
theorem effective_spread_safe_sample :
    SampleSpread.fresh.spread ≤ SampleSpread.aged.spread ∧
    SampleSpread.fresh.price ≤ 200500000000 ∧
    ((200500000000 : UInt64).toNat : Int) - SampleSpread.fresh.price.toNat ≤
      (200700000000 : UInt64).toNat - SampleSpread.fresh.price.toNat ∧
    (SampleSpread.fresh.price.toNat : Int) - (199500000000 : UInt64).toNat ≤
      SampleSpread.fresh.price.toNat - (199300000000 : UInt64).toNat := by
  obtain ⟨-, hmono, hask, -, hasks, hbids⟩ := effective_spread_safe
  have hspread := hmono _ _ SampleSpread.fresh_wider
  refine ⟨hspread, hask _ _ (by decide +kernel), ?_, ?_⟩
  · exact hasks _ _ _ _ _ hspread (by decide +kernel) (by decide +kernel)
  · exact hbids _ _ _ _ _ hspread (by decide +kernel) (by decide +kernel)

end IceMarkets.PegDesk
