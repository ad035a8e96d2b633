import Mathlib.Tactic.SplitIfs

/-!
# IceMarkets.Lib.Numeric

Token amounts as Postgres divides them: `$n::numeric / 1e6`, read back in base units.

A quotient has 16 significant digits, counted in groups of four: up to 1.01e18 base units all
six decimals are kept, from there on four.
-/

namespace Numeric

/-- `v::numeric / 1e6`, in millionths, for an amount of up to 20 digits. -/
def perMillion (v : Int) : Int := if v < 1010000000000000000 then v else (v + 50) / 100 * 100

@[simp] theorem perMillion_of_lt {v : Int} (h : v < 1010000000000000000) : perMillion v = v :=
  if_pos h

/-- The amounts that come back as they were. -/
theorem perMillion_eq_self_iff {v : Int} :
    perMillion v = v ↔ v < 1010000000000000000 ∨ 100 ∣ v := by
  unfold perMillion
  split_ifs with h
  · exact ⟨fun _ => .inl h, fun _ => rfl⟩
  · constructor
    · intro heq
      exact .inr (by omega)
    · intro hkept
      have hdvd := hkept.resolve_left h
      omega

theorem perMillion_pos {v : Int} (h : 0 < v) : 0 < perMillion v := by
  unfold perMillion
  split_ifs
  · exact h
  · omega

end Numeric
