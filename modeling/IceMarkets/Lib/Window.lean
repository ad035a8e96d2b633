import IceMarkets.Lib.Run
import Mathlib.Algebra.Ring.Int.Defs
import Mathlib.Data.Int.Order.Basic

/-!
# IceMarkets.Lib.Window

Counters of net flow that restart with a window of fixed length.

A step either stays in the window and raises the counter by at least its flow, or
finds the window expired and restarts the counter at no less than its flow. The
counter may be cut at zero on the way down, so it dominates the flow of every
stretch of the current window (`stretch_le`), and a counter kept within `M` allows
at most `2 * M` over any interval as long as the window (`interval_le`): such an
interval meets at most one restart.
-/

namespace Lts

variable {σ α : Type*}

/-- A counter of the flow of a step relation over windows of length `L`, capped at `M`. -/
structure WindowCounter (step : σ → α → σ → Prop) (L M : ℤ) where
  clock : σ → ℤ
  start : σ → ℤ
  used : σ → ℤ
  time : α → ℤ
  flow : α → ℤ
  length_pos : 0 < L
  clock_le : ∀ {s a t}, step s a t → clock s ≤ time a
  clock_eq : ∀ {s a t}, step s a t → clock t = time a
  nonneg : ∀ s, 0 ≤ used s
  stay_or_roll : ∀ {s a t}, step s a t →
    (start t = start s ∧ used s + flow a ≤ used t) ∨
      (start s + L ≤ time a ∧ start t = time a ∧ flow a ≤ used t)
  cap : ∀ {s a t}, step s a t → used s ≤ M → used t ≤ M

namespace WindowCounter

variable {step : σ → α → σ → Prop} {L M : ℤ} (C : WindowCounter step L M) {s s' t : σ} {a : α}
  {tr : List α} {T : ℤ}

/-- The net flow of a list of steps. -/
def net (tr : List α) : ℤ := (tr.map C.flow).sum

/-- The net flow of the steps in the interval of length `L` from `T`. -/
def netWithin (T : ℤ) (tr : List α) : ℤ :=
  C.net (tr.filter fun a => T ≤ C.time a ∧ C.time a < T + L)

@[simp] theorem net_nil : C.net [] = 0 := rfl

@[simp] theorem net_cons (a : α) (tr : List α) : C.net (a :: tr) = C.flow a + C.net tr := by
  unfold net
  rw [List.map_cons, List.sum_cons]

theorem netWithin_cons_of_in (h : T ≤ C.time a) (h' : C.time a < T + L) :
    C.netWithin T (a :: tr) = C.flow a + C.netWithin T tr := by
  unfold netWithin
  rw [List.filter_cons_of_pos (by simp [h, h']), net_cons]

theorem netWithin_cons_of_out (h : C.time a < T ∨ T + L ≤ C.time a) :
    C.netWithin T (a :: tr) = C.netWithin T tr := by
  unfold netWithin
  rw [List.filter_cons_of_neg]
  simp only [decide_eq_true_eq]
  omega

/-- The counter stays within its cap. -/
theorem used_le (h : Run step s tr t) (hs : C.used s ≤ M) : C.used t ≤ M :=
  h.invariant (I := fun s => C.used s ≤ M) (fun _ _ _ hstep => C.cap hstep) hs

/-- The window only moves forward. -/
theorem start_le_of_step (h : step s a t) : C.start s ≤ C.start t := by
  have := C.length_pos
  rcases C.stay_or_roll h with ⟨hst, -⟩ | ⟨hroll, hst, -⟩
  · omega
  · omega

theorem start_le (h : Run step s tr t) : C.start s ≤ C.start t :=
  h.rel (P := fun _ => True) (R := fun s t => C.start s ≤ C.start t) (fun _ => le_refl _)
    (fun _ _ _ => le_trans) (fun _ _ _ _ hstep => C.start_le_of_step hstep) (fun _ _ => trivial)

/-- Without a restart the counter rises by at least the net flow. -/
theorem used_add_net_le (h : Run step s tr t) (hst : C.start s = C.start t) :
    C.used s + C.net tr ≤ C.used t := by
  induction h with
  | nil s => simp
  | @cons s t u a tr head tail ih =>
      have hle := C.start_le tail
      have hle' := C.start_le_of_step head
      have hL := C.length_pos
      rw [net_cons]
      rcases C.stay_or_roll head with ⟨hstay, hused⟩ | ⟨hroll, hstart, -⟩
      · have := ih (by omega)
        omega
      · -- a restart would have moved the window past `start s`
        omega

/-- Within one window, the counter dominates the net flow of every stretch that ends
at the current step, also of one that begins with the restart. -/
theorem stretch_le (head : step s a s') (tail : Run step s' tr t) (hst : C.start s' = C.start t) :
    C.net (a :: tr) ≤ C.used t := by
  have hrest := C.used_add_net_le tail hst
  have hnonneg := C.nonneg s
  rw [net_cons]
  rcases C.stay_or_roll head with ⟨-, hused⟩ | ⟨-, -, hused⟩
  · omega
  · omega

/-- After the interval nothing counts. -/
theorem netWithin_eq_zero (h : Run step s tr t) (hclock : T + L ≤ C.clock s) :
    C.netWithin T tr = 0 := by
  induction h with
  | nil s => rfl
  | @cons s t u a tr head tail ih =>
      have := C.clock_le head
      have := C.clock_eq head
      rw [C.netWithin_cons_of_out (Or.inr (by omega))]
      exact ih (by omega)

/-- From a window that began inside the interval, no restart is left in it. -/
theorem netWithin_le_one (h : Run step s tr t) (hstart : T ≤ C.start s) (hclock : T ≤ C.clock s)
    (hs : C.used s ≤ M) : C.netWithin T tr ≤ M - C.used s := by
  induction h with
  | nil s =>
      have hnil : C.netWithin T [] = 0 := rfl
      omega
  | @cons s t u a tr head tail ih =>
      have hle := C.clock_le head
      have heq := C.clock_eq head
      have hcap := C.cap head hs
      by_cases hin : C.time a < T + L
      · rw [C.netWithin_cons_of_in (by omega) hin]
        rcases C.stay_or_roll head with ⟨hstay, hused⟩ | ⟨hroll, -, -⟩
        · have := ih (by omega) (by omega) hcap
          omega
        · omega
      · rw [C.netWithin_cons_of_out (Or.inr (by omega)),
          C.netWithin_eq_zero tail (by omega)]
        omega

/-- One step inside the interval, in front of a tail that obeys the bound. -/
theorem netWithin_cons_le (head : step s a s') (tail : Run step s' tr t) (hT : T ≤ C.time a)
    (hs : C.used s ≤ M) (htail : C.netWithin T tr ≤ 2 * M - C.used s') :
    C.netWithin T (a :: tr) ≤ 2 * M - C.used s := by
  have heq := C.clock_eq head
  have hcap := C.cap head hs
  have hnonneg := C.nonneg s
  by_cases hin : C.time a < T + L
  · rw [C.netWithin_cons_of_in hT hin]
    rcases C.stay_or_roll head with ⟨-, hused⟩ | ⟨-, hstart, hused⟩
    · omega
    · have : C.netWithin T tr ≤ M - C.used s' :=
        C.netWithin_le_one tail (by omega) (by omega) hcap
      omega
  · rw [C.netWithin_cons_of_out (Or.inr (by omega)), C.netWithin_eq_zero tail (by omega)]
    omega

theorem netWithin_le_two (h : Run step s tr t) (hclock : T ≤ C.clock s) (hs : C.used s ≤ M) :
    C.netWithin T tr ≤ 2 * M - C.used s := by
  induction h with
  | nil s =>
      have hnil : C.netWithin T [] = 0 := rfl
      have := C.nonneg s
      omega
  | @cons s t u a tr head tail ih =>
      have hle := C.clock_le head
      have heq := C.clock_eq head
      exact C.netWithin_cons_le head tail (by omega) hs (ih (by omega) (C.cap head hs))

/-- Over any interval as long as the window, the net flow is at most twice the cap. -/
theorem interval_le (h : Run step s tr t) (hs : C.used s ≤ M) : C.netWithin T tr ≤ 2 * M := by
  induction h with
  | nil s =>
      have hnil : C.netWithin T [] = 0 := rfl
      have := C.nonneg s
      omega
  | @cons s t u a tr head tail ih =>
      have hcap := C.cap head hs
      have hnonneg := C.nonneg s
      by_cases hT : T ≤ C.time a
      · have heq := C.clock_eq head
        have := C.netWithin_cons_le head tail hT hs
          (C.netWithin_le_two tail (by omega) hcap)
        omega
      · rw [C.netWithin_cons_of_out (Or.inl (by omega))]
        exact ih hcap

end WindowCounter

end Lts
