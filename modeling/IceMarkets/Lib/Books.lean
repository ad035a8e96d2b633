import IceMarkets.Lib.Run
import Mathlib.Algebra.BigOperators.Group.Finset.Basic

/-!
# IceMarkets.Lib.Books

Double-entry books along a run.

Each step posts to each account what its label credits and what it debits (`Posts`).
Over a run the balance is then what it was, plus the credits, less the debits
(`Posts.run`); an account no label debits never falls, and a group of accounts is kept
like one (`Posts.sum`). Steps need post only from the states of an invariant.
-/

namespace Books

open Lts

variable {σ α κ : Type*} {step : σ → α → σ → Prop} {I : σ → Prop} {bal : σ → Nat}
  {credit debit : α → Nat} {s t : σ} {tr : List α}

/-- What the labels of a run add up to. -/
def total (f : α → Nat) : List α → Nat
  | [] => 0
  | a :: tr => f a + total f tr

@[simp] theorem total_nil (f : α → Nat) : total f [] = 0 := rfl

@[simp] theorem total_cons (f : α → Nat) (a : α) (tr : List α) :
    total f (a :: tr) = f a + total f tr := rfl

theorem total_append (f : α → Nat) (tr tr' : List α) :
    total f (tr ++ tr') = total f tr + total f tr' := by
  induction tr with
  | nil => simp
  | cons a tr ih =>
      simp only [List.cons_append, total_cons, ih]
      omega

theorem total_add (f g : α → Nat) (tr : List α) :
    total (fun a => f a + g a) tr = total f tr + total g tr := by
  induction tr with
  | nil => rfl
  | cons a tr ih =>
      simp only [total_cons, ih]
      omega

theorem total_congr {f g : α → Nat} (h : ∀ a ∈ tr, f a = g a) : total f tr = total g tr := by
  induction tr with
  | nil => rfl
  | cons a tr ih =>
      rw [total_cons, total_cons, h a List.mem_cons_self,
        ih fun b hb => h b (List.mem_cons_of_mem _ hb)]

theorem total_eq_zero {f : α → Nat} (h : ∀ a ∈ tr, f a = 0) : total f tr = 0 := by
  induction tr with
  | nil => rfl
  | cons a tr ih =>
      rw [total_cons, h a List.mem_cons_self, ih fun b hb => h b (List.mem_cons_of_mem _ hb)]

theorem total_sum (f : κ → α → Nat) (S : Finset κ) (tr : List α) :
    total (fun a => ∑ k ∈ S, f k a) tr = ∑ k ∈ S, total (f k) tr := by
  induction tr with
  | nil => simp
  | cons a tr ih => simp only [total_cons, ih, Finset.sum_add_distrib]

/-- Every step from a state of the invariant posts its label's credit and debit. -/
def Posts (step : σ → α → σ → Prop) (I : σ → Prop) (bal : σ → Nat) (credit debit : α → Nat) :
    Prop :=
  ∀ s a t, I s → step s a t → bal t + debit a = bal s + credit a

theorem Posts.run (h : Posts step I bal credit debit) (hI : ∀ s a t, step s a t → I s → I t)
    (hrun : Run step s tr t) (hs : I s) : bal t + total debit tr = bal s + total credit tr := by
  induction hrun with
  | nil s => rfl
  | cons head _ ih =>
      have hstep := h _ _ _ hs head
      have hrest := ih (hI _ _ _ head hs)
      simp only [total_cons]
      omega

/-- Accounts kept alike are kept together. -/
theorem Posts.sum {bal : κ → σ → Nat} {credit debit : κ → α → Nat}
    (h : ∀ k, Posts step I (bal k) (credit k) (debit k)) (S : Finset κ) :
    Posts step I (fun s => ∑ k ∈ S, bal k s) (fun a => ∑ k ∈ S, credit k a)
      (fun a => ∑ k ∈ S, debit k a) := by
  intro s a t hs hstep
  simp only [← Finset.sum_add_distrib]
  exact Finset.sum_congr rfl fun k _ => h k s a t hs hstep

/-- What no label debits never falls. -/
theorem Posts.le (h : Posts step I bal credit debit) (hI : ∀ s a t, step s a t → I s → I t)
    (hrun : Run step s tr t) (hs : I s) (hfree : ∀ a ∈ tr, debit a = 0) : bal s ≤ bal t := by
  have hbooks := h.run hI hrun hs
  rw [total_eq_zero hfree] at hbooks
  omega

end Books
