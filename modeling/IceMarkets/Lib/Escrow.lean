import IceMarkets.Lib.Run
import Mathlib.Algebra.GroupWithZero.Nat

/-!
# IceMarkets.Lib.Escrow

An escrow that pays a fixed total through two channels, as an abstract book.

The operator pushes amounts, then once promises part of the rest, which claimants
collect, one claim each, until a deadline. Past the deadline whatever is left may be
swept. Anyone may donate. `Book` keeps the counters and the vault's balance; amounts
are natural numbers, claimants and times are of any type.

A step never needs more than the vault holds (`Book.Funded`) until a sweep, and a
sweep leaves no payout that could want the funds (`Book.Settled`).
-/

namespace Escrow

open Lts

variable {W τ : Type*} [LinearOrder τ]

/-- The counters of an escrow. -/
structure Book (W τ : Type*) where
  opened : Bool
  total : Nat
  pushed : Nat
  promised : Nat
  claimed : Nat
  finalized : Bool
  deadline : τ
  vault : Nat
  claimants : List W

/-- What happened to the book. -/
inductive Entry (W : Type*)
  | opened (amount : Nat)
  | pushed (amount : Nat)
  | finalized (promised : Nat)
  | claimed (claimant : W) (amount : Nat)
  | swept (amount : Nat)
  | donated (amount : Nat)

/-- One entry, at its time. -/
inductive Step : Book W τ → τ × Entry W → Book W τ → Prop
  | opened {b : Book W τ} {now deadline : τ} {amount : Nat}
      (fresh : b.opened = false) (blank : b.total = 0) :
      Step b (now, .opened amount)
        { opened := true, total := amount, pushed := 0, promised := 0, claimed := 0
          finalized := false, deadline, vault := b.vault + amount, claimants := b.claimants }
  | pushed {b : Book W τ} {now : τ} {amount vault : Nat} (open_ : b.finalized = false)
      (fits : b.pushed + amount ≤ b.total) (paid : vault + amount = b.vault) :
      Step b (now, .pushed amount) { b with pushed := b.pushed + amount, vault }
  | finalized {b : Book W τ} {now : τ} {promised : Nat} (opened : b.opened = true)
      (open_ : b.finalized = false) (fits : b.pushed + promised ≤ b.total) :
      Step b (now, .finalized promised) { b with promised, finalized := true }
  | claimed {b : Book W τ} {now : τ} {claimant : W} {amount vault : Nat}
      (final : b.finalized = true) (inTime : now ≤ b.deadline) (fresh : claimant ∉ b.claimants)
      (fits : b.claimed + amount ≤ b.promised) (paid : vault + amount = b.vault) :
      Step b (now, .claimed claimant amount)
        { b with claimed := b.claimed + amount, vault, claimants := claimant :: b.claimants }
  | swept {b : Book W τ} {now : τ} (opened : b.opened = true) (late : b.deadline < now) :
      Step b (now, .swept b.vault) { b with finalized := true, vault := 0 }
  | donated {b : Book W τ} {now : τ} {amount : Nat} :
      Step b (now, .donated amount) { b with vault := b.vault + amount }

/-- Steps under a clock that never goes back. -/
abbrev ClockedStep : Book W τ × τ → τ × Entry W → Book W τ × τ → Prop := Clocked Step Prod.fst

namespace Entry

/-- The entry is no sweep. -/
def SweepFree : Entry W → Prop
  | swept _ => False
  | _ => True

/-- The entry ends the pushes: it finalizes or sweeps. -/
def Closes : Entry W → Prop
  | finalized _ | swept _ => True
  | _ => False

/-- The entry is a sweep. -/
def Sweeps : Entry W → Prop
  | swept _ => True
  | _ => False

/-- The entry is a claim of `w`. -/
def ClaimedBy (w : W) : Entry W → Prop
  | claimed w' _ => w' = w
  | _ => False

/-- What the entry paid out. -/
def paidOut : Entry W → Nat
  | pushed amount | claimed _ amount | swept amount => amount
  | _ => 0

/-- What the entry received besides the total. -/
def received : Entry W → Nat
  | donated amount => amount
  | _ => 0

end Entry

/-! ### Invariants -/

namespace Book

variable {b b' : Book W τ} {a : τ × Entry W}

/-- The counters add up. -/
structure Valid (b : Book W τ) : Prop where
  total_le : b.pushed + b.promised ≤ b.total
  claimed_le : b.claimed ≤ b.promised
  unfinalized : b.finalized = false → b.promised = 0

/-- The vault holds what has not been paid out. -/
def Funded (b : Book W τ) : Prop := b.total ≤ b.vault + b.pushed + b.claimed

/-- The promises are final. -/
structure Final (b : Book W τ) : Prop where
  opened : b.opened = true
  finalized : b.finalized = true

/-- Pushes and claims are over by `now`. -/
structure Settled (b : Book W τ) (now : τ) : Prop extends b.Final where
  late : b.deadline < now

theorem Valid.step (hb : b.Valid) (h : Step b a b') : b'.Valid := by
  obtain ⟨htotal, hclaimed, hunfin⟩ := hb
  cases h with
  | opened fresh blank => exact ⟨Nat.zero_le _, le_refl _, fun _ => rfl⟩
  | pushed open_ fits paid =>
      have hprom := hunfin open_
      exact ⟨by dsimp only; omega, hclaimed, hunfin⟩
  | finalized opened open_ fits =>
      have hprom := hunfin open_
      exact ⟨fits, by dsimp only; omega, nofun⟩
  | claimed final inTime fresh fits paid => exact ⟨htotal, fits, hunfin⟩
  | swept opened late => exact ⟨htotal, hclaimed, nofun⟩
  | donated => exact ⟨htotal, hclaimed, hunfin⟩

/-- No step but a sweep takes from the vault more than it accounts for. -/
theorem Funded.step (hb : b.Funded) (h : Step b a b') (hfree : a.2.SweepFree) : b'.Funded := by
  unfold Funded at hb ⊢
  cases h with
  | opened fresh blank => dsimp only; omega
  | pushed open_ fits paid => dsimp only; omega
  | finalized opened open_ fits => exact hb
  | claimed final inTime fresh fits paid => dsimp only; omega
  | swept opened late => exact hfree.elim
  | donated => dsimp only; omega

theorem final_of_closes (h : Step b a b') (hc : a.2.Closes) : b'.Final := by
  cases h with
  | finalized opened open_ fits => exact ⟨opened, rfl⟩
  | swept opened late => exact ⟨opened, rfl⟩
  | opened | pushed | claimed | donated => exact hc.elim

/-- What is final stays final, with its deadline. -/
theorem Final.step (hb : b.Final) (h : Step b a b') : b'.Final ∧ b'.deadline = b.deadline := by
  obtain ⟨hopened, hfin⟩ := hb
  cases h with
  | opened fresh blank => cases fresh.symm.trans hopened
  | pushed open_ fits paid => exact ⟨⟨hopened, hfin⟩, rfl⟩
  | finalized opened open_ fits => exact ⟨⟨hopened, rfl⟩, rfl⟩
  | claimed final inTime fresh fits paid => exact ⟨⟨hopened, hfin⟩, rfl⟩
  | swept opened late => exact ⟨⟨hopened, rfl⟩, rfl⟩
  | donated => exact ⟨⟨hopened, hfin⟩, rfl⟩

/-- A sweep leaves the book settled. -/
theorem settled_of_sweeps {s s' : Book W τ × τ} (h : ClockedStep s a s') (hs : a.2.Sweeps) :
    s'.1.Settled s'.2 := by
  obtain ⟨b', clock'⟩ := s'
  obtain ⟨hstep, -, hclock⟩ := h
  dsimp only at hstep hclock ⊢
  rw [hclock]
  cases hstep with
  | swept opened late => exact ⟨⟨opened, rfl⟩, late⟩
  | opened | pushed | finalized | claimed | donated => exact hs.elim

/-- A settled book stays settled. -/
theorem Settled.step {s s' : Book W τ × τ} (hs : s.1.Settled s.2) (h : ClockedStep s a s') :
    s'.1.Settled s'.2 := by
  obtain ⟨hfin, hdeadline⟩ := hs.toFinal.step h.step
  refine ⟨hfin, ?_⟩
  rw [hdeadline, h.clock]
  exact lt_of_lt_of_le hs.late h.le_now

/-- A claimant stays on the list. -/
theorem mem_claimants_of_step {w : W} (h : Step b a b')
    (hw : w ∈ b.claimants ∨ a.2.ClaimedBy w) : w ∈ b'.claimants := by
  cases h with
  | claimed final inTime fresh fits paid =>
      rcases hw with hw | hw
      · exact List.mem_cons_of_mem _ hw
      · cases hw
        exact List.mem_cons_self
  | opened fresh blank => exact hw.resolve_right id
  | pushed open_ fits paid => exact hw.resolve_right id
  | finalized opened open_ fits => exact hw.resolve_right id
  | swept opened late => exact hw.resolve_right id
  | donated => exact hw.resolve_right id

/-- The vault's balance changes by what the entry paid and received. -/
theorem vault_of_step (h : Step b a b') :
    b'.vault + a.2.paidOut + b.total = b.vault + a.2.received + b'.total := by
  cases h with
  | opened fresh blank =>
      simp only [Entry.paidOut, Entry.received]
      omega
  | pushed open_ fits paid =>
      simp only [Entry.paidOut, Entry.received]
      omega
  | finalized opened open_ fits => rfl
  | claimed final inTime fresh fits paid =>
      simp only [Entry.paidOut, Entry.received]
      omega
  | swept opened late =>
      simp only [Entry.paidOut, Entry.received]
      omega
  | donated =>
      simp only [Entry.paidOut, Entry.received]
      omega

end Book

/-! ### Runs -/

section Run

variable {s s' : Book W τ × τ} {tr : List (τ × Entry W)}

theorem valid_of_run (h : Run ClockedStep s tr s') (hs : s.1.Valid) : s'.1.Valid :=
  h.invariant (I := fun s => s.1.Valid) (fun _ _ _ hstep hs => hs.step hstep.step) hs

/-- Until the first sweep the vault holds what has not been paid out. -/
theorem funded_of_run (h : Run ClockedStep s tr s') (hs : s.1.Funded)
    (htr : ∀ a ∈ tr, a.2.SweepFree) : s'.1.Funded :=
  h.invariantOn (I := fun s => s.1.Funded) (fun _ _ _ hfree hstep hs => hs.step hstep.step hfree)
    htr hs

/-- A sweep settles the book for good. -/
theorem settled_of_run (h : Run ClockedStep s tr s') (htr : ∃ a ∈ tr, a.2.Sweeps) :
    s'.1.Settled s'.2 :=
  h.established (P := fun a => a.2.Sweeps) (I := fun s => s.1.Settled s.2)
    (fun _ _ _ ha hstep => Book.settled_of_sweeps hstep ha)
    (fun _ _ _ hstep hs => hs.step hstep) htr

/-- The book is funded or settled, whatever happened. -/
theorem funded_or_settled_of_run (h : Run ClockedStep s tr s') (hs : s.1.Funded) :
    s'.1.Funded ∨ s'.1.Settled s'.2 := by
  by_cases htr : ∃ a ∈ tr, a.2.Sweeps
  · exact Or.inr (settled_of_run h htr)
  · refine Or.inl (funded_of_run h hs fun a ha => ?_)
    cases hentry : a.2 with
    | swept amount => exact htr ⟨a, ha, by rw [hentry]; trivial⟩
    | opened | pushed | finalized | claimed | donated => trivial

theorem final_of_run (h : Run ClockedStep s tr s') (htr : ∃ a ∈ tr, a.2.Closes) : s'.1.Final :=
  h.established (P := fun a => a.2.Closes) (I := fun s => s.1.Final)
    (fun _ _ _ ha hstep => Book.final_of_closes hstep.step ha)
    (fun _ _ _ hstep hs => (hs.step hstep.step).1) htr

theorem mem_claimants_of_run {w : W} (h : Run ClockedStep s tr s')
    (htr : ∃ a ∈ tr, a.2.ClaimedBy w) : w ∈ s'.1.claimants :=
  h.established (P := fun a => a.2.ClaimedBy w) (I := fun s => w ∈ s.1.claimants)
    (fun _ _ _ ha hstep => Book.mem_claimants_of_step hstep.step (Or.inr ha))
    (fun _ _ _ hstep hs => Book.mem_claimants_of_step hstep.step (Or.inl hs)) htr

/-- Nothing is paid that was not received. -/
theorem vault_of_run (h : Run ClockedStep s tr s') :
    s'.1.vault + (tr.map fun a => a.2.paidOut).sum + s.1.total =
      s.1.vault + (tr.map fun a => a.2.received).sum + s'.1.total := by
  induction h with
  | nil s => rfl
  | cons head tail ih =>
      have hstep := Book.vault_of_step head.step
      simp only [List.map_cons, List.sum_cons]
      omega

end Run

end Escrow
