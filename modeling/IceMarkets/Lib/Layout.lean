import Mathlib.Data.List.Basic

/-!
# IceMarkets.Lib.Layout

Fields at fixed offsets of a byte string.

`At data offset field` says that `field` stands at `offset`; `slice` is the checked read.
Neighbouring fields join (`at_append_iff`) and what no field covers is a gap
(`exists_gap`), so reading a record field by field is the same as its whole encoding
standing at the front (`at_zero_iff`).
-/

namespace Layout

variable {α : Type*} {data field field' : List α} {offset n : Nat}

/-- The `n` entries from `offset` on, if there are as many. -/
def slice (data : List α) (offset n : Nat) : Option (List α) :=
  if offset + n ≤ data.length then some ((data.drop offset).take n) else none

/-- `field` stands at `offset`. -/
def At (data : List α) (offset : Nat) (field : List α) : Prop :=
  ∃ before after, before.length = offset ∧ data = before ++ field ++ after

theorem At.length_le (h : At data offset field) : offset + field.length ≤ data.length := by
  obtain ⟨before, after, rfl, rfl⟩ := h
  simp only [List.length_append]
  omega

/-- A field is what a read of its length finds. -/
theorem slice_eq_some :
    slice data offset n = some field ↔ field.length = n ∧ At data offset field := by
  unfold slice
  constructor
  · intro h
    split_ifs at h with hle
    cases h
    have hlen : ((data.drop offset).take n).length = n := by
      rw [List.length_take, List.length_drop]
      omega
    refine ⟨hlen, data.take offset, (data.drop offset).drop n, ?_, ?_⟩
    · rw [List.length_take]
      omega
    · rw [List.append_assoc, List.take_append_drop, List.take_append_drop]
  · intro hx
    obtain ⟨rfl, hat⟩ := hx
    rw [if_pos hat.length_le]
    obtain ⟨before, after, rfl, rfl⟩ := hat
    rw [List.append_assoc, List.drop_left, List.take_left]

/-- Any part of the record is some field. -/
theorem exists_gap (data : List α) (offset n : Nat) (h : offset + n ≤ data.length) :
    ∃ gap, gap.length = n ∧ At data offset gap := by
  have hslice : slice data offset n = some ((data.drop offset).take n) := if_pos h
  exact ⟨_, slice_eq_some.mp hslice⟩

/-- Two neighbouring fields are one. -/
theorem at_append_iff :
    At data offset (field ++ field') ↔
      At data offset field ∧ At data (offset + field.length) field' := by
  constructor
  · intro h
    obtain ⟨before, after, rfl, rfl⟩ := h
    refine ⟨⟨before, field' ++ after, rfl, by simp⟩, before ++ field, after, by simp, by simp⟩
  · intro hx
    obtain ⟨h, before', after', hlen, hdata⟩ := hx
    obtain ⟨before, after, rfl, rfl⟩ := h
    have hlen' : (before ++ field).length = before'.length := by
      rw [List.length_append, hlen]
    rw [List.append_assoc before'] at hdata
    obtain ⟨hbefore, hafter⟩ := List.append_inj hdata hlen'
    exact ⟨before, after', rfl, by rw [hafter]; simp⟩

theorem at_zero_iff : At data 0 field ↔ ∃ rest, data = field ++ rest := by
  constructor
  · intro h
    obtain ⟨before, after, hlen, rfl⟩ := h
    rw [List.length_eq_zero_iff.mp hlen]
    exact ⟨after, rfl⟩
  · intro hx
    obtain ⟨rest, rfl⟩ := hx
    exact ⟨[], rest, rfl, rfl⟩

/-- A prefix is compared through the entries taken. -/
theorem take_eq_iff (h : field.length = n) : data.take n = field ↔ At data 0 field := by
  subst h
  rw [at_zero_iff]
  constructor
  · intro h
    have hsplit := (List.take_append_drop field.length data).symm
    rw [h] at hsplit
    exact ⟨_, hsplit⟩
  · intro hx
    obtain ⟨rest, rfl⟩ := hx
    exact List.take_left

/-- One entry, read by its index. -/
theorem getElem?_eq_some_iff {a : α} : data[offset]? = some a ↔ At data offset [a] := by
  constructor
  · intro h
    obtain ⟨hlt, rfl⟩ := List.getElem?_eq_some_iff.mp h
    refine ⟨data.take offset, data.drop (offset + 1), ?_, ?_⟩
    · rw [List.length_take]
      omega
    · simp
  · intro h
    obtain ⟨before, after, rfl, rfl⟩ := h
    simp

end Layout
