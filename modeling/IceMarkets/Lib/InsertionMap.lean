import Mathlib.Algebra.BigOperators.Group.Finset.Basic
import Mathlib.Data.List.Nodup

/-!
# IceMarkets.Lib.InsertionMap

Maps that list their entries in the order their keys were first set, as association
lists: JavaScript's `Map`, and a table with a unique key.

`upsert` sets a key from the value it had. A loop of upserts gives each key what the
items of that key make of its value (`lookup_fold`), and a sum over the entries is a
sum over keys (`sum_entries`).
-/

namespace InsertionMap

variable {K V A : Type*} [DecidableEq K]

/-- Set the key `k` to `f` of its value, in place; a new key goes last. -/
def upsert (k : K) (f : Option V → V) : List (K × V) → List (K × V)
  | [] => [(k, f none)]
  | (k', v) :: m => if k' = k then (k', f (some v)) :: m else (k', v) :: upsert k f m

/-- One upsert for each item of a list. -/
def fold (key : A → K) (f : A → Option V → V) (l : List A) (m : List (K × V)) : List (K × V) :=
  l.foldl (fun m x => upsert (key x) (f x) m) m

/-! ### Lookups -/

@[simp] theorem lookup_upsert_self [BEq K] [LawfulBEq K] (k : K) (f : Option V → V)
    (m : List (K × V)) :
    (upsert k f m).lookup k = some (f (m.lookup k)) := by
  induction m with
  | nil => simp [upsert]
  | cons kv m ih =>
      obtain ⟨k', v⟩ := kv
      by_cases h : k' = k
      · simp [upsert, h]
      · simp [upsert, h, List.lookup_cons, beq_eq_false_iff_ne.mpr (Ne.symm h), ih]

theorem lookup_upsert_ne [BEq K] [LawfulBEq K] {k k' : K} (h : k' ≠ k) (f : Option V → V)
    (m : List (K × V)) :
    (upsert k f m).lookup k' = m.lookup k' := by
  induction m with
  | nil => simp [upsert, List.lookup_cons, beq_eq_false_iff_ne.mpr h]
  | cons kv m ih =>
      obtain ⟨k'', v⟩ := kv
      by_cases hk : k'' = k
      · subst hk
        simp [upsert, List.lookup_cons, beq_eq_false_iff_ne.mpr h]
      · by_cases hk' : k' = k''
        · simp [upsert, hk, hk']
        · simp [upsert, hk, List.lookup_cons, beq_eq_false_iff_ne.mpr hk', ih]

/-- A key's value after a loop is what the items of that key make of it, in order. -/
theorem lookup_fold (key : A → K) (f : A → Option V → V) (l : List A) (m : List (K × V)) (k : K) :
    (fold key f l m).lookup k =
      (l.filter (key · = k)).foldl (fun o x => some (f x o)) (m.lookup k) := by
  unfold fold
  induction l generalizing m with
  | nil => rfl
  | cons x l ih =>
      rw [List.foldl_cons, ih]
      by_cases h : key x = k
      · subst h
        simp
      · simp [h, lookup_upsert_ne (Ne.symm h)]

/-! ### Keys -/

theorem mem_keys_upsert {k k' : K} {f : Option V → V} {m : List (K × V)} :
    k' ∈ (upsert k f m).map Prod.fst ↔ k' = k ∨ k' ∈ m.map Prod.fst := by
  induction m with
  | nil => simp [upsert]
  | cons kv m ih =>
      obtain ⟨k'', v⟩ := kv
      by_cases h : k'' = k
      · simp [upsert, h]
      · simp only [upsert, h, if_false, List.map_cons, List.mem_cons, ih]
        tauto

theorem nodup_upsert {k : K} {f : Option V → V} {m : List (K × V)} (h : (m.map Prod.fst).Nodup) :
    ((upsert k f m).map Prod.fst).Nodup := by
  induction m with
  | nil => simp [upsert]
  | cons kv m ih =>
      obtain ⟨k', v⟩ := kv
      rw [List.map_cons, List.nodup_cons] at h
      by_cases hk : k' = k
      · simpa [upsert, hk] using h
      · rw [upsert, if_neg hk, List.map_cons, List.nodup_cons, mem_keys_upsert]
        exact ⟨not_or.mpr ⟨hk, h.1⟩, ih h.2⟩

theorem nodup_fold (key : A → K) (f : A → Option V → V) (l : List A) {m : List (K × V)}
    (h : (m.map Prod.fst).Nodup) : ((fold key f l m).map Prod.fst).Nodup := by
  unfold fold
  induction l generalizing m with
  | nil => exact h
  | cons x l ih => exact ih (nodup_upsert h)

theorem mem_keys_fold {key : A → K} {f : A → Option V → V} {l : List A} {m : List (K × V)} {k : K} :
    k ∈ (fold key f l m).map Prod.fst ↔ (∃ x ∈ l, key x = k) ∨ k ∈ m.map Prod.fst := by
  unfold fold
  induction l generalizing m with
  | nil => simp
  | cons x l ih =>
      rw [List.foldl_cons, ih, mem_keys_upsert]
      simp only [List.mem_cons, exists_eq_or_imp, eq_comm (a := k)]
      rw [or_left_comm, or_assoc]

/-! ### Entries -/

/-- With unique keys, the entries are what lookups find. -/
theorem mem_iff_lookup {m : List (K × V)} (h : (m.map Prod.fst).Nodup) {k : K} {v : V} :
    (k, v) ∈ m ↔ m.lookup k = some v := by
  induction m with
  | nil => simp
  | cons kv m ih =>
      obtain ⟨k', v'⟩ := kv
      rw [List.map_cons, List.nodup_cons] at h
      by_cases hk : k = k'
      · subst hk
        have hnot : ∀ v, (k, v) ∉ m := fun v hm => h.1 (List.mem_map.mpr ⟨(k, v), hm, rfl⟩)
        simp [hnot, eq_comm]
      · simp [List.lookup_cons, beq_eq_false_iff_ne.mpr hk, hk, ih h.2]

theorem lookup_eq_none {m : List (K × V)} {k : K} (h : k ∉ m.map Prod.fst) :
    m.lookup k = none := by
  induction m with
  | nil => rfl
  | cons kv m ih =>
      obtain ⟨k', v⟩ := kv
      rw [List.map_cons, List.mem_cons, not_or] at h
      rw [List.lookup_cons, beq_eq_false_iff_ne.mpr h.1]
      exact ih h.2

/-- A sum over the entries is a sum over any keys that include theirs. -/
theorem sum_entries {M : Type*} [AddCommMonoid M] {m : List (K × V)}
    (h : (m.map Prod.fst).Nodup) {s : Finset K} (hs : ∀ k ∈ m.map Prod.fst, k ∈ s) (g : K → V → M) :
    (m.map fun kv => g kv.1 kv.2).sum = ∑ k ∈ s, (m.lookup k).elim 0 (g k) := by
  have hsub : (m.map Prod.fst).toFinset ⊆ s := by
    intro k hk
    exact hs k (List.mem_toFinset.mp hk)
  rw [← Finset.sum_subset hsub, List.sum_toFinset _ h, List.map_map]
  · refine congrArg List.sum (List.map_congr_left fun kv hkv => ?_)
    obtain ⟨k, v⟩ := kv
    simp [(mem_iff_lookup h).mp hkv]
  · intro k _ hk
    rw [lookup_eq_none (by simpa using hk)]
    rfl

/-- A loop that accumulates gives each key the sum of its items. -/
theorem getD_lookup_fold_add {M : Type*} [AddCommMonoid M] (key : A → K) (g : A → M) (l : List A)
    (k : K) :
    ((fold key (fun x v => v.getD 0 + g x) l []).lookup k).getD 0 =
      ((l.filter (key · = k)).map g).sum := by
  rw [lookup_fold, List.lookup_nil]
  have haux : ∀ (xs : List A) (o : Option M),
      (xs.foldl (fun o x => some (o.getD 0 + g x)) o).getD 0 = o.getD 0 + (xs.map g).sum := by
    intro xs
    induction xs with
    | nil => intro o; simp
    | cons x xs ih =>
        intro o
        rw [List.foldl_cons, ih, Option.getD_some, List.map_cons, List.sum_cons, add_assoc]
  rw [haux, Option.getD_none, zero_add]

/-- Dropping zero entries changes no value. -/
theorem getD_lookup_filter_ne_zero {M : Type*} [Zero M] [DecidableEq M] {m : List (K × M)}
    (h : (m.map Prod.fst).Nodup) (k : K) :
    ((m.filter fun kv => kv.2 ≠ 0).lookup k).getD 0 = (m.lookup k).getD 0 := by
  have hfilter : ((m.filter fun kv => decide (kv.2 ≠ 0)).map Prod.fst).Nodup :=
    h.sublist (List.filter_sublist.map _)
  cases hl : m.lookup k with
  | none =>
      cases hf : (m.filter fun kv => decide (kv.2 ≠ 0)).lookup k with
      | none => rfl
      | some v =>
          have hmem := List.mem_of_mem_filter ((mem_iff_lookup hfilter).mpr hf)
          rw [(mem_iff_lookup h).mp hmem] at hl
          cases hl
  | some v =>
      have hmem := (mem_iff_lookup h).mpr hl
      by_cases hv : v = 0
      · cases hf : (m.filter fun kv => decide (kv.2 ≠ 0)).lookup k with
        | none => simp [hv]
        | some v' =>
            obtain ⟨hmem', hne⟩ := List.mem_filter.mp ((mem_iff_lookup hfilter).mpr hf)
            rw [(mem_iff_lookup h).mp hmem'] at hl
            cases hl
            simp [hv] at hne
      · rw [(mem_iff_lookup hfilter).mp (List.mem_filter.mpr ⟨hmem, by simpa using hv⟩)]

end InsertionMap
