import Mathlib.Data.Nat.Find
import Mathlib.Order.Lattice

/-!
# IceMarkets.Lib.Tiling

Half-open windows, each of which starts where the one before it stops.

`n` such windows tile the time from the first start to the last stop: a moment between
the two is in exactly one of them (`Contiguous.existsUnique_window`).
-/

namespace Tiling

variable {α : Type*} [LinearOrder α] {start stop : ℕ → α} {n i j : ℕ} {t : α}

structure Contiguous (start stop : ℕ → α) (n : ℕ) : Prop where
  lt : ∀ i < n, start i < stop i
  next : ∀ i, i + 1 < n → start (i + 1) = stop i

/-- A window stops before a later one starts. -/
theorem Contiguous.stop_le_start (h : Contiguous start stop n) (hij : i < j) (hj : j < n) :
    stop i ≤ start j := by
  induction j, hij using Nat.le_induction with
  | base => exact (h.next i hj).ge
  | succ j _ ih =>
      have hle := ih (by omega)
      have hlt := h.lt j (by omega)
      rw [h.next j hj]
      exact hle.trans hlt.le

/-- No moment is in two windows. -/
theorem Contiguous.eq_of_mem (h : Contiguous start stop n) (hi : i < n) (hj : j < n)
    (hti : start i ≤ t ∧ t < stop i) (htj : start j ≤ t ∧ t < stop j) : i = j := by
  rcases Nat.lt_trichotomy i j with hlt | heq | hlt
  · exact absurd ((h.stop_le_start hlt hj).trans htj.1) hti.2.not_ge
  · exact heq
  · exact absurd ((h.stop_le_start hlt hi).trans hti.1) htj.2.not_ge

/-- Every moment from a start on and before a stop is in exactly one window. -/
theorem Contiguous.existsUnique_window (h : Contiguous start stop n) (hi : i < n)
    (hstart : start i ≤ t)
    (hj : j < n) (hstop : t < stop j) : ∃! k, k < n ∧ start k ≤ t ∧ t < stop k := by
  have hex : ∃ k, k < n ∧ t < stop k := ⟨j, hj, hstop⟩
  have hfind := Nat.find_spec hex
  refine ⟨Nat.find hex, ⟨hfind.1, ?_, hfind.2⟩,
    fun k hk => h.eq_of_mem hk.1 hfind.1 hk.2 ⟨?_, hfind.2⟩⟩
  all_goals
    -- the first window that stops after the moment
    cases hk : Nat.find hex with
    | zero =>
        rcases Nat.eq_zero_or_pos i with rfl | hpos
        · exact hstart
        · have hle := h.stop_le_start hpos hi
          exact ((h.lt 0 (by omega)).le.trans hle).trans hstart
    | succ k =>
        have hmin : ¬(k < n ∧ t < stop k) := Nat.find_min hex (by omega)
        rw [hk] at hfind
        rw [h.next k hfind.1]
        exact not_lt.mp fun hlt => hmin ⟨by omega, hlt⟩

end Tiling
