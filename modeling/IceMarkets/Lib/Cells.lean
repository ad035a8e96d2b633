import Mathlib.Data.List.Nodup
import Mathlib.Data.List.ProdSigma

/-!
# IceMarkets.Lib.Cells

Loops that write each of some cells of a fixed-length array once, from that cell's
value before. What the array holds after the loop is said cell by cell.
-/

namespace Cells

variable {α ι κ : Type*} {n : Nat}

/-- Cell `key i` becomes `f i` of what it was, for each `i` of the list in turn. -/
def update (key : ι → Fin n) (f : ι → α → α) (v : Vector α n) (l : List ι) : Vector α n :=
  l.foldl (fun v i => v.set (key i) (f i v[key i])) v

variable {key : ι → Fin n} {f : ι → α → α}

/-- Other cells keep their values. -/
theorem getElem_update_of_ne (v : Vector α n) {l : List ι} {k : Fin n} (h : ∀ i ∈ l, key i ≠ k) :
    (update key f v l)[k] = v[k] := by
  induction l generalizing v with
  | nil => rfl
  | cons i l ih =>
      have hi : (key i).val ≠ k.val := fun hk => h i List.mem_cons_self (Fin.ext hk)
      rw [update, List.foldl_cons, ← update, ih _ fun j hj => h j (List.mem_cons_of_mem _ hj)]
      exact Vector.getElem_set_ne (key i).isLt k.isLt hi

/-- A cell that the loop meets once holds its new value. -/
theorem getElem_update (hkey : Function.Injective key) (v : Vector α n) {l : List ι}
    (hl : l.Nodup) {i : ι} (hi : i ∈ l) : (update key f v l)[key i] = f i v[key i] := by
  induction l generalizing v with
  | nil => cases hi
  | cons j l ih =>
      obtain ⟨hj, hl⟩ := List.nodup_cons.mp hl
      rw [update, List.foldl_cons, ← update]
      rcases List.mem_cons.mp hi with rfl | hi
      · have hrest : ∀ k ∈ l, key k ≠ key i := by
          intro k hk hki
          exact hj (hkey hki ▸ hk)
        rw [getElem_update_of_ne _ hrest]
        exact Vector.getElem_set_self (key i).isLt
      · have hne : (key j).val ≠ (key i).val := by
          intro h
          exact hj (hkey (Fin.ext h) ▸ hi)
        rw [ih _ hl hi]
        exact congrArg (f i) (Vector.getElem_set_ne (key j).isLt (key i).isLt hne)

/-- Two nested loops are one over the pairs. -/
theorem update_product (key : ι × κ → Fin n) (f : ι × κ → α → α) (v : Vector α n) (l : List ι)
    (l' : List κ) :
    l.foldl (fun v i => update (fun j => key (i, j)) (fun j => f (i, j)) v l') v =
      update key f v (l ×ˢ l') := by
  induction l generalizing v with
  | nil => rfl
  | cons i l ih =>
      rw [List.foldl_cons, ih, List.product_cons]
      simp only [update, List.foldl_append, List.foldl_map]

end Cells
