import Mathlib.Data.List.Nodup
import Mathlib.Data.List.Perm.Lattice

/-!
# IceMarkets.Lib.KeyedTable

Tables with a unique key, written by inserts that do nothing on a conflict.

The first row offered under a key is the one the table keeps (`find?_insertAll`). So a
table holds exactly the rows of a list, once each, when every one of them was offered,
nothing else was, and no two of them share a key (`insertAll_perm_iff`).
-/

namespace KeyedTable

variable {ρ κ : Type*} [DecidableEq κ] {key : ρ → κ}

/-- `insert … on conflict (key) do nothing`. -/
def insertNew (key : ρ → κ) (t : List ρ) (r : ρ) : List ρ :=
  if t.any (key · = key r) then t else t ++ [r]

/-- The table after rows were offered in turn. -/
def insertAll (key : ρ → κ) (t rows : List ρ) : List ρ := rows.foldl (insertNew key) t

/-- A row that may not be offered at all. -/
def insertOption (key : ρ → κ) (t : List ρ) (r : Option ρ) : List ρ := insertAll key t r.toList

section Rows

variable {t rows rows' : List ρ} {r : ρ} {k : κ}

@[simp] theorem insertAll_nil : insertAll key t [] = t := rfl

theorem insertAll_cons : insertAll key t (r :: rows) = insertAll key (insertNew key t r) rows := rfl

@[simp] theorem insertOption_none : insertOption key t none = t := rfl

@[simp] theorem insertOption_some : insertOption key t (some r) = insertNew key t r := rfl

/-- Offering what some of a list call for is offering it to each in turn. -/
theorem insertAll_filterMap_cons {α : Type*} {offer : α → Option ρ} {a : α} {as : List α} :
    insertAll key t ((a :: as).filterMap offer) =
      insertAll key (insertOption key t (offer a)) (as.filterMap offer) := by
  cases ho : offer a with
  | none => rw [List.filterMap_cons_none ho, insertOption_none]
  | some r => rw [List.filterMap_cons_some ho, insertOption_some, insertAll_cons]

/-- An insert does nothing exactly where the key is taken. -/
theorem insertNew_of_mem (h : ∃ r' ∈ t, key r' = key r) : insertNew key t r = t := by
  obtain ⟨r', hr', hkey⟩ := h
  exact if_pos (List.any_eq_true.mpr ⟨r', hr', decide_eq_true hkey⟩)

theorem insertNew_of_not_mem (h : ∀ r' ∈ t, key r' ≠ key r) : insertNew key t r = t ++ [r] := by
  refine if_neg ?_
  intro hany
  obtain ⟨r', hr', hkey⟩ := List.any_eq_true.mp hany
  exact h r' hr' (of_decide_eq_true hkey)

/-- Either nothing happens or the row is appended. -/
theorem insertNew_cases : insertNew key t r = t ∨ insertNew key t r = t ++ [r] := by
  unfold insertNew
  split
  · exact Or.inl rfl
  · exact Or.inr rfl

theorem insertNew_find? :
    (insertNew key t r).find? (key · = k) = (t ++ [r]).find? (key · = k) := by
  by_cases h : ∃ r' ∈ t, key r' = key r
  · rw [insertNew_of_mem h, List.find?_append]
    by_cases hk : key r = k
    · obtain ⟨r', hr', hkey⟩ := h
      have hsome : (t.find? (key · = k)).isSome := by
        rw [List.find?_isSome]
        exact ⟨r', hr', decide_eq_true (hkey.trans hk)⟩
      rw [Option.or_of_isSome hsome]
    · simp [hk]
  · rw [insertNew_of_not_mem fun r' hr' hkey => h ⟨r', hr', hkey⟩]

/-- The first row offered under a key is the one kept. -/
theorem find?_insertAll : (insertAll key t rows).find? (key · = k) =
    (t ++ rows).find? (key · = k) := by
  induction rows generalizing t with
  | nil => simp
  | cons r rows ih =>
      rw [insertAll_cons, ih, List.find?_append, insertNew_find?, ← List.find?_append]
      simp

theorem find?_of_fresh (h : ∀ r ∈ t, key r ≠ k) : t.find? (key · = k) = none := by
  rw [List.find?_eq_none]
  intro r hr
  simpa using h r hr

/-- Under a key that is not taken, the row kept is the first of those offered; the first of
all, where no other key is offered. -/
theorem find?_insertAll_of_fresh (h : ∀ r ∈ t, key r ≠ k) (hrows : ∀ r ∈ rows, key r = k) :
    (insertAll key t rows).find? (key · = k) = rows.head? := by
  rw [find?_insertAll, List.find?_append, find?_of_fresh h, Option.none_or]
  cases rows with
  | nil => rfl
  | cons r rows => exact List.find?_cons_of_pos (by simpa using hrows r List.mem_cons_self)

theorem mem_insertAll (h : r ∈ insertAll key t rows) : r ∈ t ∨ r ∈ rows := by
  induction rows generalizing t with
  | nil => exact Or.inl h
  | cons r₀ rows ih =>
      rw [insertAll_cons] at h
      rcases ih h with h | h
      · rcases @insertNew_cases _ _ _ key t r₀ with ht | ht
        · rw [ht] at h
          exact Or.inl h
        · rw [ht, List.mem_append, List.mem_singleton] at h
          exact h.imp id fun h => by simp [h]
      · exact Or.inr (List.mem_cons_of_mem _ h)

/-- A row offered has its key in the table. -/
theorem exists_key_insertAll (h : r ∈ rows) : ∃ r' ∈ insertAll key t rows, key r' = key r := by
  have hsome : ((insertAll key t rows).find? (key · = key r)).isSome := by
    rw [find?_insertAll, List.find?_isSome]
    exact ⟨r, List.mem_append_right t h, decide_eq_true rfl⟩
  obtain ⟨r', hr', hkey⟩ := List.find?_isSome.mp hsome
  exact ⟨r', hr', of_decide_eq_true hkey⟩

/-- No key is in the table twice. -/
theorem nodup_insertAll (h : (t.map key).Nodup) : ((insertAll key t rows).map key).Nodup := by
  induction rows generalizing t with
  | nil => exact h
  | cons r rows ih =>
      rw [insertAll_cons]
      refine ih ?_
      by_cases hmem : ∃ r' ∈ t, key r' = key r
      · rwa [insertNew_of_mem hmem]
      · rw [insertNew_of_not_mem fun r' hr' hkey => hmem ⟨r', hr', hkey⟩, List.map_append,
          List.nodup_append]
        refine ⟨h, by simp, ?_⟩
        intro k hk k' hk' heq
        obtain ⟨r', hr', rfl⟩ := List.mem_map.mp hk
        simp only [List.map_cons, List.map_nil, List.mem_singleton] at hk'
        exact hmem ⟨r', hr', heq.trans hk'⟩

/-- Rows whose keys a table does not have are kept as in an empty one. -/
theorem insertAll_of_apart (h : ∀ r ∈ rows, ∀ r' ∈ t, key r' ≠ key r) :
    insertAll key t rows = t ++ insertAll key [] rows := by
  -- the rows offered so far are the same in both
  have hgeneral : ∀ u : List ρ, insertAll key (t ++ u) rows = t ++ insertAll key u rows := by
    induction rows with
    | nil => exact fun u => rfl
    | cons r rows ih =>
        intro u
        have ih := ih fun r' hr' => h r' (List.mem_cons_of_mem _ hr')
        have hr := h r List.mem_cons_self
        rw [insertAll_cons, insertAll_cons, ← ih]
        by_cases hmem : ∃ r' ∈ u, key r' = key r
        · obtain ⟨r', hr', hkey⟩ := hmem
          rw [insertNew_of_mem ⟨r', hr', hkey⟩,
            insertNew_of_mem ⟨r', List.mem_append_right t hr', hkey⟩]
        · have hu : ∀ r' ∈ u, key r' ≠ key r := fun r' hr' hkey => hmem ⟨r', hr', hkey⟩
          rw [insertNew_of_not_mem hu, insertNew_of_not_mem, List.append_assoc]
          intro r' hr'
          rcases List.mem_append.mp hr' with hr' | hr'
          · exact hr r' hr'
          · exact hu r' hr'
  simpa using hgeneral []

/-- A table holds exactly the rows of a list, once each, exactly when no two of them share a
key and each was offered. -/
theorem insertAll_perm_iff {expected : List ρ} (hrows : ∀ r ∈ rows, r ∈ expected) :
    (insertAll key [] rows).Perm expected ↔
      (expected.map key).Nodup ∧ ∀ r ∈ expected, r ∈ rows := by
  have hnodup : ((insertAll key [] rows).map key).Nodup := nodup_insertAll (by simp)
  constructor
  · intro h
    refine ⟨(h.map key).nodup_iff.mp hnodup, ?_⟩
    intro r hr
    rcases mem_insertAll (h.mem_iff.mpr hr) with hr | hr
    · cases hr
    · exact hr
  · intro hx
    obtain ⟨hkeys, hoffered⟩ := hx
    refine (List.perm_ext_iff_of_nodup (hnodup.of_map key) (hkeys.of_map key)).mpr ?_
    intro r
    constructor
    · intro hr
      rcases mem_insertAll hr with hr | hr
      · cases hr
      · exact hrows r hr
    · intro hr
      obtain ⟨r', hr', hkey⟩ := @exists_key_insertAll _ _ _ key [] _ _ (hoffered r hr)
      have hexp : r' ∈ expected := by
        rcases mem_insertAll hr' with h | h
        · cases h
        · exact hrows r' h
      rwa [← List.inj_on_of_nodup_map hkeys hexp hr hkey]

end Rows

end KeyedTable
