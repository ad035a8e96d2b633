import Mathlib.Algebra.Order.BigOperators.Group.List

/-!
# IceMarkets.Lib.Run

Finite runs of a labelled step relation.

`Run step s tr s'` relates two states through the labels met on the way. What a
single step preserves, a run preserves (`Run.invariant`), also in a form
restricted to runs whose labels satisfy a predicate, since most properties hold
only of the steps some condition allows.
-/

namespace Lts

variable {σ α : Type*} {step : σ → α → σ → Prop}

/-- `step` leads from the first state to the second through the labels of the list. -/
inductive Run (step : σ → α → σ → Prop) : σ → List α → σ → Prop
  | nil (s : σ) : Run step s [] s
  | cons {s t u : σ} {a : α} {tr : List α} (head : step s a t) (tail : Run step t tr u) :
      Run step s (a :: tr) u

namespace Run

variable {s t t' u : σ} {a : α} {tr tr' : List α}

theorem single (h : step s a t) : Run step s [a] t := cons h (nil t)

theorem nil_iff : Run step s [] t ↔ s = t := by
  constructor
  · intro h
    cases h
    rfl
  · intro h
    obtain rfl := h
    exact nil s

theorem cons_iff : Run step s (a :: tr) u ↔ ∃ t, step s a t ∧ Run step t tr u := by
  constructor
  · intro h
    rcases h with _ | ⟨head, tail⟩
    exact ⟨_, head, tail⟩
  · intro h
    obtain ⟨t, head, tail⟩ := h
    exact cons head tail

/-- Runs compose, and a run of a concatenation passes through a state between. -/
theorem append_iff : Run step s (tr ++ tr') u ↔ ∃ t, Run step s tr t ∧ Run step t tr' u := by
  induction tr generalizing s with
  | nil =>
      constructor
      · exact fun h => ⟨s, nil s, h⟩
      · intro hx
        obtain ⟨t, h, h'⟩ := hx
        rw [nil_iff.mp h]
        exact h'
  | cons a tr ih =>
      simp only [List.cons_append, cons_iff, ih]
      constructor
      · intro hx
        obtain ⟨t, h, t', h', h''⟩ := hx
        exact ⟨t', ⟨t, h, h'⟩, h''⟩
      · intro hx
        obtain ⟨t', ⟨t, h, h'⟩, h''⟩ := hx
        exact ⟨t, h, t', h', h''⟩

theorem append (h : Run step s tr t) (h' : Run step t tr' u) : Run step s (tr ++ tr') u :=
  append_iff.mpr ⟨t, h, h'⟩

/-- The last step of a run. -/
theorem snoc_iff : Run step s (tr ++ [a]) u ↔ ∃ t, Run step s tr t ∧ step t a u := by
  simp only [append_iff, cons_iff, nil_iff, exists_eq_right]

/-- A property that every step with a label in `P` preserves holds at the end of a
run over such labels. -/
theorem invariantOn {P : α → Prop} {I : σ → Prop} (hstep : ∀ s a t, P a → step s a t → I s → I t)
    (h : Run step s tr t) (hP : ∀ a ∈ tr, P a) (hI : I s) : I t := by
  induction h with
  | nil s => exact hI
  | cons head _ ih =>
      exact ih (fun a ha => hP a (List.mem_cons_of_mem _ ha))
        (hstep _ _ _ (hP _ List.mem_cons_self) head hI)

/-- A property every step preserves holds at the end of a run. -/
theorem invariant {I : σ → Prop} (hstep : ∀ s a t, step s a t → I s → I t)
    (h : Run step s tr t) (hI : I s) : I t :=
  h.invariantOn (P := fun _ => True) (fun s a t _ => hstep s a t) (fun _ _ => trivial) hI

/-- What a step with a label in `P` establishes and every step preserves holds at the
end of a run through such a label. -/
theorem established {P : α → Prop} {I : σ → Prop} (hmark : ∀ s a t, P a → step s a t → I t)
    (hstep : ∀ s a t, step s a t → I s → I t) (h : Run step s tr t) (hP : ∃ a ∈ tr, P a) : I t := by
  induction h with
  | nil s =>
      obtain ⟨a, ha, -⟩ := hP
      cases ha
  | cons head tail ih =>
      obtain ⟨a, ha, hPa⟩ := hP
      rcases List.mem_cons.mp ha with rfl | ha
      · exact tail.invariant hstep (hmark _ _ _ hPa head)
      · exact ih ⟨a, ha, hPa⟩

/-- A label of a run is that of one of its steps. -/
theorem exists_step (h : Run step s tr t) (ha : a ∈ tr) : ∃ s' t', step s' a t' := by
  induction h with
  | nil s => cases ha
  | cons head _ ih =>
      rcases List.mem_cons.mp ha with rfl | ha
      · exact ⟨_, _, head⟩
      · exact ih ha

/-- Where a step has one outcome, so has a run. -/
theorem deterministic (hdet : ∀ s a t t', step s a t → step s a t' → t = t') (h : Run step s tr t)
    (h' : Run step s tr t') : t = t' := by
  induction h with
  | nil s => exact nil_iff.mp h'
  | cons head _ ih =>
      obtain ⟨u, head', tail'⟩ := cons_iff.mp h'
      obtain rfl := hdet _ _ _ _ head head'
      exact ih tail'

/-- A simulation maps runs to runs. -/
theorem simulate {σ' α' : Type*} {step' : σ' → α' → σ' → Prop} {f : σ → σ'} {g : α → α'}
    (hstep : ∀ s a t, step s a t → step' (f s) (g a) (f t)) (h : Run step s tr t) :
    Run step' (f s) (tr.map g) (f t) := by
  induction h with
  | nil s => exact nil (f s)
  | cons head _ ih => exact cons (hstep _ _ _ head) ih

/-- A reflexive and transitive relation every step is in relates the ends of a run. -/
theorem rel {P : α → Prop} {R : σ → σ → Prop} (hrefl : ∀ s, R s s)
    (htrans : ∀ s t u, R s t → R t u → R s u) (hstep : ∀ s a t, P a → step s a t → R s t)
    (h : Run step s tr t) (hP : ∀ a ∈ tr, P a) : R s t := by
  induction h with
  | nil s => exact hrefl s
  | cons head _ ih =>
      exact htrans _ _ _ (hstep _ _ _ (hP _ List.mem_cons_self) head)
        (ih fun a ha => hP a (List.mem_cons_of_mem _ ha))

end Run

/-! ### Clocks -/

/-- A step beside a clock, the state's second component, which never goes back;
`time` is when a label happened. -/
structure Clocked {τ : Type*} [LE τ] (step : σ → α → σ → Prop) (time : α → τ) (s : σ × τ) (a : α)
    (s' : σ × τ) : Prop where
  step : step s.1 a s'.1
  le_now : s.2 ≤ time a
  clock : s'.2 = time a

end Lts
