import Mathlib.Algebra.Order.Field.Basic
import Mathlib.Data.List.GetD
import Mathlib.Data.List.Perm.Basic
import Mathlib.Data.List.Sort
import Mathlib.Tactic.Linarith

/-!
# IceMarkets.Lib.Median

Order statistics of a list, and its median as the mean of the two in the middle.

`nth l i` is the `i`-th smallest entry. It does not depend on the order of the list, it
grows with `i`, and without one entry the ones above it move down by one (`nth_erase`).
So the median of the others is the mean of two order statistics of the whole, which
side of the middle the entry is on says which (`median_erase_of_lt`, `_of_gt`, `_of_eq`).
-/

namespace Median

section Order

variable {α : Type*} [LinearOrder α] [Zero α]

/-- The `i`-th smallest entry. -/
def nth (l : List α) (i : Nat) : α := (l.insertionSort (· ≤ ·)).getD i 0

variable {l l' : List α} {i j : Nat} {x : α}

omit [Zero α] in
theorem insertionSort_perm (h : l.Perm l') : l.insertionSort (· ≤ ·) = l'.insertionSort (· ≤ ·) :=
  List.Perm.eq_of_pairwise' (List.pairwise_insertionSort _ l) (List.pairwise_insertionSort _ l')
    (((List.perm_insertionSort _ l).trans h).trans (List.perm_insertionSort _ l').symm)

theorem nth_perm (h : l.Perm l') (i : Nat) : nth l i = nth l' i := by
  rw [nth, nth, insertionSort_perm h]

omit [Zero α] in
theorem lt_length_insertionSort (h : i < l.length) : i < (l.insertionSort (· ≤ ·)).length := by
  rwa [List.length_insertionSort]

theorem nth_eq_getElem (h : i < (l.insertionSort (· ≤ ·)).length) :
    nth l i = (l.insertionSort (· ≤ ·))[i] :=
  List.getD_eq_getElem _ _ _

theorem nth_mem (h : i < l.length) : nth l i ∈ l := by
  rw [nth_eq_getElem (lt_length_insertionSort h), ← List.mem_insertionSort (· ≤ ·)]
  exact List.getElem_mem _

theorem exists_nth (h : x ∈ l) : ∃ i < l.length, nth l i = x := by
  rw [← List.mem_insertionSort (· ≤ ·)] at h
  obtain ⟨i, hi, hx⟩ := List.mem_iff_getElem.mp h
  have hlt : i < l.length := by rwa [List.length_insertionSort] at hi
  exact ⟨i, hlt, (nth_eq_getElem hi).trans hx⟩

theorem nth_mono (hij : i ≤ j) (h : j < l.length) : nth l i ≤ nth l j := by
  rw [nth_eq_getElem (lt_length_insertionSort h),
    nth_eq_getElem (lt_length_insertionSort (hij.trans_lt h))]
  rcases hij.eq_or_lt with rfl | hlt
  · exact le_rfl
  · exact List.pairwise_iff_getElem.mp (List.pairwise_insertionSort _ l) i j _ _ hlt

/-- Without its `i`-th smallest entry, the list's larger ones move down by one. -/
theorem nth_erase (h : i < l.length) (j : Nat) :
    nth (l.erase (nth l i)) j = if j < i then nth l j else nth l (j + 1) := by
  have hi := lt_length_insertionSort h
  have hperm : (l.erase (nth l i)).Perm ((l.insertionSort (· ≤ ·)).eraseIdx i) := by
    refine List.Perm.cons_inv (a := nth l i) ?_
    have h1 := (List.perm_cons_erase (nth_mem h)).symm
    have h2 := List.getElem_cons_eraseIdx_perm hi
    rw [← nth_eq_getElem hi] at h2
    exact h1.trans ((h2.trans (List.perm_insertionSort _ l)).symm)
  have hsorted : ((l.insertionSort (· ≤ ·)).eraseIdx i).Pairwise (· ≤ ·) :=
    (List.pairwise_insertionSort _ l).sublist (List.eraseIdx_sublist _ _)
  rw [nth_perm hperm, nth, hsorted.insertionSort_eq, List.getD_eq_getElem?_getD,
    List.getElem?_eraseIdx]
  split_ifs
  · rw [nth, List.getD_eq_getElem?_getD]
  · rw [nth, List.getD_eq_getElem?_getD]

end Order

section Field

variable {α : Type*} [Field α] [LinearOrder α] [IsStrictOrderedRing α] {l l' : List α} {i : Nat}

/-- The mean of the two middle entries; the middle one, of an odd number. -/
def median (l : List α) : α := (nth l ((l.length - 1) / 2) + nth l (l.length / 2)) / 2

omit [IsStrictOrderedRing α] in
theorem median_perm (h : l.Perm l') : median l = median l' := by
  rw [median, median, h.length_eq, nth_perm h, nth_perm h]

/-- The lower half is at most the median. -/
theorem nth_le_median (hi : 2 * i + 1 ≤ l.length) : nth l i ≤ median l := by
  have h1 : nth l i ≤ nth l ((l.length - 1) / 2) := nth_mono (by omega) (by omega)
  have h2 : nth l i ≤ nth l (l.length / 2) := nth_mono (by omega) (by omega)
  rw [median]
  linarith

/-- The upper half is at least the median. -/
theorem median_le_nth (hi : l.length ≤ 2 * i + 1) (h : i < l.length) : median l ≤ nth l i := by
  have h1 : nth l ((l.length - 1) / 2) ≤ nth l i := nth_mono (by omega) h
  have h2 : nth l (l.length / 2) ≤ nth l i := nth_mono (by omega) h
  rw [median]
  linarith

/-- The median is between the least and the greatest entry. -/
theorem exists_le_median_le (h : l ≠ []) :
    ∃ lo ∈ l, ∃ hi ∈ l, (∀ x ∈ l, lo ≤ x ∧ x ≤ hi) ∧ lo ≤ median l ∧ median l ≤ hi := by
  have hlen := List.length_pos_iff.mpr h
  refine ⟨nth l 0, nth_mem hlen, nth l (l.length - 1), nth_mem (by omega), ?_,
    nth_le_median (by omega), median_le_nth (by omega) (by omega)⟩
  intro x hx
  obtain ⟨i, hi, rfl⟩ := exists_nth hx
  exact ⟨nth_mono (Nat.zero_le _) hi, nth_mono (by omega) (by omega)⟩

theorem median_pos (h : l ≠ []) (hpos : ∀ x ∈ l, 0 < x) : 0 < median l := by
  obtain ⟨lo, hlo, -, -, -, hle, -⟩ := exists_le_median_le h
  exact (hpos lo hlo).trans_le hle

/-! ### Without one entry -/

omit [IsStrictOrderedRing α] in
theorem median_erase (h : i < l.length) :
    median (l.erase (nth l i)) =
      ((if (l.length - 2) / 2 < i then nth l ((l.length - 2) / 2)
        else nth l ((l.length - 2) / 2 + 1)) +
        if (l.length - 1) / 2 < i then nth l ((l.length - 1) / 2)
            else nth l ((l.length - 1) / 2 + 1)) / 2 := by
  rw [median, List.length_erase_of_mem (nth_mem h), nth_erase h, nth_erase h, Nat.sub_sub]

/-- The median of the others, of an entry of the lower half. -/
def medianAbove (l : List α) : α := (nth l (l.length / 2) + nth l ((l.length + 1) / 2)) / 2

/-- The median of the others, of an entry of the upper half. -/
def medianBelow (l : List α) : α := (nth l ((l.length - 2) / 2) + nth l ((l.length - 1) / 2)) / 2

/-- The mean of the middle entry's neighbours. -/
def medianBeside (l : List α) : α := (nth l ((l.length - 2) / 2) + nth l ((l.length + 1) / 2)) / 2

theorem nth_le_medianAbove (h : 2 * i + 1 < l.length) : nth l i ≤ medianAbove l := by
  have h1 : nth l i ≤ nth l (l.length / 2) := nth_mono (by omega) (by omega)
  have h2 : nth l i ≤ nth l ((l.length + 1) / 2) := nth_mono (by omega) (by omega)
  rw [medianAbove]
  linarith

theorem medianBelow_le_nth (h : l.length < 2 * i + 1) (hi : i < l.length) :
    medianBelow l ≤ nth l i := by
  have h1 : nth l ((l.length - 2) / 2) ≤ nth l i := nth_mono (by omega) hi
  have h2 : nth l ((l.length - 1) / 2) ≤ nth l i := nth_mono (by omega) hi
  rw [medianBelow]
  linarith

omit [IsStrictOrderedRing α] in
theorem median_erase_of_lt (h : 2 * i + 1 < l.length) :
    median (l.erase (nth l i)) = medianAbove l := by
  rw [median_erase (by omega), if_neg (by omega), if_neg (by omega), medianAbove,
    show (l.length - 2) / 2 + 1 = l.length / 2 by omega,
    show (l.length - 1) / 2 + 1 = (l.length + 1) / 2 by omega]

omit [IsStrictOrderedRing α] in
theorem median_erase_of_gt (h : l.length < 2 * i + 1) (hi : i < l.length) :
    median (l.erase (nth l i)) = medianBelow l := by
  rw [median_erase hi, if_pos (by omega), if_pos (by omega), medianBelow]

omit [IsStrictOrderedRing α] in
theorem median_erase_of_eq (h : 2 * i + 1 = l.length) (hi : 0 < i) :
    median (l.erase (nth l i)) = medianBeside l := by
  rw [median_erase (by omega), if_pos (by omega), if_neg (by omega), medianBeside,
    show (l.length - 1) / 2 + 1 = (l.length + 1) / 2 by omega]

end Field

end Median
