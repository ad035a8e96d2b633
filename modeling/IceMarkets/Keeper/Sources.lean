import IceMarkets.Lib.Median
import Mathlib.Data.Rat.Cast.Order
import Mathlib.Tactic.FieldSimp
import Mathlib.Tactic.NormNum

/-!
# IceMarkets.Keeper.Sources

The median of several price sources without its outliers (`sources/median.ts`).

Prices are rationals; every one is finite. The rules ask that a kept reading be within a
quarter of the median of the other readings. The code measures it against the median of
all of them, itself included: the two agree exactly for the readings that are
`Clustered`, which is a condition on the order of the valid prices alone.
-/

namespace IceMarkets.Keeper

open Median

/-! ### Definitions -/

structure SourceReading where
  price : Rat
  source : String
  deriving DecidableEq, Repr

structure MedianResult where
  price : Rat
  sourcesUsed : Nat
  sources : List String
  deriving DecidableEq, Repr

/-- `MAX_DEVIATION_PCT`. -/
def maxDeviationPct : Rat := 25

/-- `medianOf`; it is never asked of an empty list. -/
def medianOf (values : List Rat) : Rat :=
  let sorted := values.insertionSort (· ≤ ·)
  let mid := sorted.length / 2
  if sorted.length % 2 = 0 then (sorted.getD (mid - 1) 0 + sorted.getD mid 0) / 2
    else sorted.getD mid 0

/-- `valid`: neither null nor non-positive. -/
def validReadings (readings : List (Option SourceReading)) : List SourceReading :=
  readings.reduceOption.filter (0 < ·.price)

def deviationPct (price median : Rat) : Rat := |price - median| / median * 100

/-- `kept`: within the deviation of the median of all valid readings. -/
def keptReadings (readings : List (Option SourceReading)) : List SourceReading :=
  let valid := validReadings readings
  let provisionalMedian := medianOf (valid.map (·.price))
  valid.filter fun v => deviationPct v.price provisionalMedian ≤ maxDeviationPct

def median3 (readings : List (Option SourceReading)) : Option MedianResult :=
  if (validReadings readings).length < 2 then none
  else
    let kept := keptReadings readings
    if kept.length < 2 then none
    else some { price := medianOf (kept.map (·.price)), sourcesUsed := kept.length
                sources := kept.map (·.source) }

/-! ### What the rules ask -/

/-- The valid prices. -/
def validPrices (readings : List (Option SourceReading)) : List Rat :=
  (validReadings readings).map (·.price)

/-- A result by the rules: every kept reading is near the median of the other valid ones,
there are two, the price is between the least and the greatest of them, and no order of
the sources changes it. -/
structure ByRules (readings : List (Option SourceReading)) (r : MedianResult) : Prop where
  near : ∀ v ∈ keptReadings readings,
    deviationPct v.price (medianOf (((validReadings readings).erase v).map (·.price))) ≤
      maxDeviationPct
  two : 2 ≤ (keptReadings readings).length
  between : ∃ lo ∈ keptReadings readings, ∃ hi ∈ keptReadings readings,
    (∀ v ∈ keptReadings readings, lo.price ≤ v.price ∧ v.price ≤ hi.price) ∧
      lo.price ≤ r.price ∧ r.price ≤ hi.price
  order : ∀ readings', readings'.Perm readings → (median3 readings').map (·.price) = some r.price

/-- No price passes the test against the median of all and fails it against that of the
others: these are the mean of the upper middle ones for a price of the lower half, of the
lower middle ones for one of the upper half, and of the neighbours for the middle one. -/
structure Clustered (prices : List Rat) : Prop where
  lower : ∀ i, 2 * i + 1 < prices.length →
    3 * median prices ≤ 4 * nth prices i → 3 * medianAbove prices ≤ 4 * nth prices i
  upper : ∀ i < prices.length, prices.length < 2 * i + 1 →
    4 * nth prices i ≤ 5 * median prices → 4 * nth prices i ≤ 5 * medianBelow prices
  middle : ∀ i, 2 * i + 1 = prices.length →
    3 * medianBeside prices ≤ 4 * nth prices i ∧ 4 * nth prices i ≤ 5 * medianBeside prices

/-! ### The median and the deviation -/

theorem medianOf_eq (values : List Rat) : medianOf values = median values := by
  unfold medianOf median nth
  simp only [List.length_insertionSort]
  split_ifs with h
  · rw [show (values.length - 1) / 2 = values.length / 2 - 1 by omega]
  · rw [show (values.length - 1) / 2 = values.length / 2 by omega, add_self_div_two]

theorem deviationPct_le_iff {x m : Rat} (hm : 0 < m) :
    deviationPct x m ≤ maxDeviationPct ↔ 3 * m ≤ 4 * x ∧ 4 * x ≤ 5 * m := by
  unfold deviationPct maxDeviationPct
  rw [div_mul_eq_mul_div, div_le_iff₀ hm, ← le_div_iff₀ (by norm_num), abs_le]
  constructor
  · intro h
    obtain ⟨h1, h2⟩ := h
    constructor <;> linarith
  · intro h
    obtain ⟨h1, h2⟩ := h
    constructor <;> linarith

/-! ### The test against all and the test against the others -/

section Prices

variable {prices : List Rat}

/-- The medians without one price are positive, of at least two positive ones. -/
theorem median_erase_pos (hlen : 2 ≤ prices.length) (hpos : ∀ x ∈ prices, 0 < x) {x : Rat}
    (hx : x ∈ prices) :
    0 < median (prices.erase x) := by
  refine median_pos ?_ fun y hy => hpos y (List.mem_of_mem_erase hy)
  rw [← List.length_pos_iff, List.length_erase_of_mem hx]
  omega

/-- Passing the first test implies passing the second exactly for clustered prices. -/
theorem near_iff_clustered (hlen : 2 ≤ prices.length) (hpos : ∀ x ∈ prices, 0 < x) :
    (∀ x ∈ prices, deviationPct x (median prices) ≤ maxDeviationPct →
      deviationPct x (median (prices.erase x)) ≤ maxDeviationPct) ↔ Clustered prices := by
  have hmedian := median_pos (List.ne_nil_of_length_pos (by omega)) hpos
  constructor
  · intro hnear
    refine ⟨fun i h hkept => ?_, fun i hi h hkept => ?_, fun i h => ?_⟩
    · have hmem : nth prices i ∈ prices := nth_mem (by omega)
      have hle : nth prices i ≤ median prices := nth_le_median h.le
      have hothers := median_erase_pos hlen hpos hmem
      have hdev := hnear _ hmem ((deviationPct_le_iff hmedian).mpr ⟨hkept, by linarith⟩)
      rw [median_erase_of_lt h] at hdev hothers
      exact ((deviationPct_le_iff hothers).mp hdev).1
    · have hmem : nth prices i ∈ prices := nth_mem hi
      have hle : median prices ≤ nth prices i := median_le_nth h.le hi
      have hothers := median_erase_pos hlen hpos hmem
      have hdev := hnear _ hmem ((deviationPct_le_iff hmedian).mpr ⟨by linarith, hkept⟩)
      rw [median_erase_of_gt h hi] at hdev hothers
      exact ((deviationPct_le_iff hothers).mp hdev).2
    · -- the middle price is the median of all
      have hmem : nth prices i ∈ prices := nth_mem (by omega)
      have hle : nth prices i ≤ median prices := nth_le_median h.le
      have hge : median prices ≤ nth prices i := median_le_nth h.ge (by omega)
      have hothers := median_erase_pos hlen hpos hmem
      have hdev := hnear _ hmem ((deviationPct_le_iff hmedian).mpr ⟨by linarith, by linarith⟩)
      rw [median_erase_of_eq h (by omega)] at hdev hothers
      exact (deviationPct_le_iff hothers).mp hdev
  · intro hc x hx hkept
    obtain ⟨hlow, hhigh⟩ := (deviationPct_le_iff hmedian).mp hkept
    have hothers := median_erase_pos hlen hpos hx
    rw [deviationPct_le_iff hothers]
    obtain ⟨i, hi, rfl⟩ := exists_nth hx
    rcases lt_trichotomy (2 * i + 1) prices.length with h | h | h
    · rw [median_erase_of_lt h] at hothers ⊢
      have hle := nth_le_medianAbove h
      exact ⟨hc.lower i h hlow, by linarith⟩
    · rw [median_erase_of_eq h (by omega)]
      exact hc.middle i h
    · rw [median_erase_of_gt h hi] at hothers ⊢
      have hle := medianBelow_le_nth h hi
      exact ⟨by linarith, hc.upper i hi h hhigh⟩

end Prices

/-! ### The result -/

section Result

variable {readings readings' : List (Option SourceReading)} {r : MedianResult} {v : SourceReading}

theorem price_pos (h : v ∈ validReadings readings) : 0 < v.price := by
  simpa using (List.mem_filter.mp h).2

theorem mem_keptReadings :
    v ∈ keptReadings readings ↔
      v ∈ validReadings readings ∧ deviationPct v.price (median (validPrices readings)) ≤
        maxDeviationPct := by
  unfold keptReadings validPrices
  simp only [List.mem_filter, decide_eq_true_eq, medianOf_eq]

theorem median3_eq_some :
    median3 readings = some r ↔ 2 ≤ (validReadings readings).length ∧
      2 ≤ (keptReadings readings).length ∧
      r = { price := medianOf ((keptReadings readings).map (·.price))
            sourcesUsed := (keptReadings readings).length
            sources := (keptReadings readings).map (·.source) } := by
  unfold median3
  simp only [Option.ite_none_left_eq_some, not_lt, Option.some.injEq, eq_comm (b := r)]

/-- The median of the others, by their prices. -/
theorem medianOf_erase (h : v ∈ validReadings readings) :
    medianOf (((validReadings readings).erase v).map (·.price)) =
      median ((validPrices readings).erase v.price) := by
  rw [medianOf_eq]
  refine median_perm (List.Perm.cons_inv (a := v.price) ?_)
  have h1 := ((List.perm_cons_erase h).map (·.price)).symm
  have h2 := List.perm_cons_erase (List.mem_map_of_mem (f := (·.price)) h)
  exact h1.trans h2

/-- Every kept reading is near the others exactly for clustered prices. -/
theorem near_iff (hlen : 2 ≤ (validReadings readings).length) :
    (∀ v ∈ keptReadings readings,
      deviationPct v.price (medianOf (((validReadings readings).erase v).map (·.price))) ≤
        maxDeviationPct) ↔
      Clustered (validPrices readings) := by
  rw [← near_iff_clustered (by simpa [validPrices] using hlen)]
  · constructor
    · intro h x hx hkept
      obtain ⟨v, hv, rfl⟩ := List.mem_map.mp hx
      have := h v (mem_keptReadings.mpr ⟨hv, hkept⟩)
      rwa [medianOf_erase hv] at this
    · intro h v hv
      obtain ⟨hv, hkept⟩ := mem_keptReadings.mp hv
      rw [medianOf_erase hv]
      exact h v.price (List.mem_map_of_mem hv) hkept
  · intro x hx
    obtain ⟨v, hv, rfl⟩ := List.mem_map.mp hx
    exact price_pos hv

theorem validReadings_perm (h : readings'.Perm readings) :
    (validReadings readings').Perm (validReadings readings) :=
  (h.filterMap id).filter _

theorem keptReadings_perm (h : readings'.Perm readings) :
    (keptReadings readings').Perm (keptReadings readings) := by
  have hvalid := validReadings_perm h
  unfold keptReadings
  simp only [medianOf_eq, median_perm (hvalid.map (·.price))]
  exact hvalid.filter _

/-- The order of the sources changes no price. -/
theorem median3_perm (h : readings'.Perm readings) (hr : median3 readings = some r) :
    (median3 readings').map (·.price) = some r.price := by
  obtain ⟨hvalid, hkept, rfl⟩ := median3_eq_some.mp hr
  rw [← (validReadings_perm h).length_eq] at hvalid
  rw [← (keptReadings_perm h).length_eq] at hkept
  rw [median3_eq_some.mpr ⟨hvalid, hkept, rfl⟩, Option.map_some, medianOf_eq, medianOf_eq,
    median_perm ((keptReadings_perm h).map (·.price))]

/-- The price is between the least and the greatest kept one. -/
theorem median3_between (hr : median3 readings = some r) :
    ∃ lo ∈ keptReadings readings, ∃ hi ∈ keptReadings readings,
      (∀ v ∈ keptReadings readings, lo.price ≤ v.price ∧ v.price ≤ hi.price) ∧
        lo.price ≤ r.price ∧ r.price ≤ hi.price := by
  obtain ⟨-, hkept, rfl⟩ := median3_eq_some.mp hr
  have hne : (keptReadings readings).map (·.price) ≠ [] := by
    rw [← List.length_pos_iff, List.length_map]
    omega
  obtain ⟨_, hlo, _, hhi, hall, hle, hge⟩ := exists_le_median_le hne
  obtain ⟨lo, hmemLo, rfl⟩ := List.mem_map.mp hlo
  obtain ⟨hi, hmemHi, rfl⟩ := List.mem_map.mp hhi
  rw [← medianOf_eq] at hle hge
  exact ⟨lo, hmemLo, hi, hmemHi, fun v hv => hall _ (List.mem_map_of_mem hv), hle, hge⟩

end Result

/-- Where the sources give a result, it is one by the rules exactly when the valid prices
are clustered. -/
theorem byRules_iff_clustered {readings : List (Option SourceReading)} {r : MedianResult}
    (h : median3 readings = some r) : ByRules readings r ↔ Clustered (validPrices readings) := by
  obtain ⟨hvalid, hkept, -⟩ := median3_eq_some.mp h
  rw [← near_iff hvalid]
  exact ⟨fun hr => hr.near, fun hnear =>
    { near := hnear
      two := hkept
      between := median3_between h
      order := fun readings' hperm => median3_perm hperm h }⟩

namespace SampleSources

/-- Three sources that agree, and one that did not answer. -/
def agreeing : List (Option SourceReading) :=
  [some { price := 100, source := "watchcharts" }, none,
    some { price := 110, source := "chrono24" },
    some { price := 105, source := "collectorcrypt" }]

/-- Two sources that differ by half. -/
def apart : List (Option SourceReading) :=
  [some { price := 100, source := "pokemontcg" }, some { price := 150, source := "collectorcrypt" }]

end SampleSources

theorem byRules_iff_clustered_sample :
    ByRules SampleSources.agreeing { price := 105, sourcesUsed := 3
                                     sources := ["watchcharts", "chrono24", "collectorcrypt"] } ↔
      Clustered [100, 110, 105] :=
  byRules_iff_clustered (by decide +kernel)

/-- Both are kept, each a fifth off the median of the two, though each is a third or a half
off the other. -/
theorem median3_keeps_apart :
    median3 SampleSources.apart =
        some { price := 125, sourcesUsed := 2, sources := ["pokemontcg", "collectorcrypt"] } ∧
      ¬ ByRules SampleSources.apart
        { price := 125, sourcesUsed := 2, sources := ["pokemontcg", "collectorcrypt"] } := by
  refine ⟨by decide +kernel, fun h => ?_⟩
  have hnear := h.near { price := 100, source := "pokemontcg" } (by decide +kernel)
  exact absurd hnear (by decide +kernel)

end IceMarkets.Keeper
