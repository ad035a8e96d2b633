import IceMarkets.Distributor.Run
import IceMarkets.Lib.Escrow

/-!
# IceMarkets.Distributor.Accounting

An epoch's amounts always add up, and nobody is paid twice.

An epoch is an escrow: `Distribution.book` reads its abstract book off the accounts,
and every step of the program is a step of that book (`Step.book`). The escrow's
invariants then say what holds after any run, and what each handler checks says
what it can no longer accept.
-/

namespace IceMarkets.Distributor

open Lts

/-! ### The book of an epoch -/

/-- The escrow an epoch is. Claims close `SWEEP_DELAY_SECS` after its end. -/
def Distribution.book (env : EpochEnv) (s : Distribution) : Escrow.Book Pubkey Int :=
  match s.epoch with
  | none =>
      { opened := false, total := 0, pushed := 0, promised := 0, claimed := 0, finalized := false
        deadline := 0, vault := s.ledger.amount env.vault
        claimants := s.claimed.map (·.wallet) }
  | some e =>
      { opened := true, total := e.totalAmount.toNat, pushed := e.pushedAmount.toNat
        promised := e.merkleTotal.toNat, claimed := e.claimedAmount.toNat
        finalized := e.finalized, deadline := satAddI64 e.endTs sweepDelaySecs
        vault := s.ledger.amount env.vault, claimants := s.claimed.map (·.wallet) }

/-- What a step enters in the book. -/
def Report.entry : Report → Escrow.Entry Pubkey
  | opened total => .opened total.toNat
  | pushed items => .pushed (itemTotal items)
  | finalized _ merkleTotal => .finalized merkleTotal.toNat
  | claimed wallet amount => .claimed wallet amount.toNat
  | swept amount => .swept amount.toNat
  | configured _ => .donated 0
  | external donated => .donated donated

/-- A step's entry at its time. -/
def Event.entry (ev : Event) : Int × Escrow.Entry Pubkey := (ev.now, ev.report.entry)

/-- Paid out of the vault along a run: pushes, claims and sweeps. -/
def paidOut (tr : List Event) : Nat := (tr.map fun ev => ev.report.entry.paidOut).sum

/-- Donated to the vault along a run. -/
def donated (tr : List Event) : Nat := (tr.map fun ev => ev.report.entry.received).sum

section Book

variable {env : EpochEnv} {s s' : Distribution} {ev : Event} {e : Epoch}

theorem book_of_none (h : s.epoch = none) : s.book env =
    { opened := false, total := 0, pushed := 0, promised := 0, claimed := 0, finalized := false
      deadline := 0, vault := s.ledger.amount env.vault
      claimants := s.claimed.map (·.wallet) } := by
  unfold Distribution.book
  rw [h]

theorem book_of_some (h : s.epoch = some e) : s.book env =
    { opened := true, total := e.totalAmount.toNat, pushed := e.pushedAmount.toNat
      promised := e.merkleTotal.toNat, claimed := e.claimedAmount.toNat
      finalized := e.finalized, deadline := satAddI64 e.endTs sweepDelaySecs
      vault := s.ledger.amount env.vault, claimants := s.claimed.map (·.wallet) } := by
  unfold Distribution.book
  rw [h]

@[simp] theorem book_vault : (s.book env).vault = s.ledger.amount env.vault := by
  unfold Distribution.book
  cases s.epoch <;> rfl

@[simp] theorem book_claimants : (s.book env).claimants = s.claimed.map (·.wallet) := by
  unfold Distribution.book
  cases s.epoch <;> rfl

theorem OpenEffect.book {x : OpenEpochInput} (h : OpenEffect env s x s') :
    Escrow.Step (s.book env) (x.now, .opened x.args.totalAmount.toNat) (s'.book env) := by
  obtain ⟨e, he, hendTs, htotal, hpushed, hmerkle, hclaimed, hfin⟩ := h.epoch
  rw [book_of_none h.fresh, book_of_some he, htotal, hpushed, hmerkle, hclaimed, hfin, h.vault,
    h.claimed]
  exact .opened rfl rfl

theorem PushEffect.book {x : PushInput} {now : Int} (h : PushEffect env s x e s') :
    Escrow.Step (s.book env) (now, .pushed (itemTotal x.items)) (s'.book env) := by
  obtain ⟨pushed, hpushed, he'⟩ := h.epoch'
  rw [book_of_some h.epoch, book_of_some he', h.claimed, hpushed]
  exact .pushed h.not_finalized h.total_le h.vault

theorem FinalizeEffect.book {merkleRoot : Bytes32} {merkleTotal : UInt64} {now : Int}
    (h : FinalizeEffect s merkleRoot merkleTotal e s') :
    Escrow.Step (s.book env) (now, .finalized merkleTotal.toNat) (s'.book env) := by
  rw [h.state, book_of_some h.epoch, book_of_some rfl]
  exact .finalized rfl h.not_finalized h.total_le

theorem ClaimEffect.book {x : ClaimInput} (h : ClaimEffect env s x e s')
    (hsigner : x.wallet ≠ env.epochKey) :
    Escrow.Step (s.book env) (x.now, .claimed x.wallet x.amount.toNat) (s'.book env) := by
  obtain ⟨newClaimed, hnew, he'⟩ := h.epoch'
  have hfresh : x.wallet ∉ s.claimed.map (·.wallet) := by
    intro hmem
    obtain ⟨c, hc, heq⟩ := List.mem_map.mp hmem
    exact h.unclaimed c hc heq
  rw [book_of_some h.epoch, book_of_some he', h.claimed, hnew]
  exact .claimed h.finalized h.open_until hfresh h.total_le (h.vault hsigner)

theorem SweepEffect.book {x : SweepInput} {amount : UInt64} (h : SweepEffect env s x e amount s') :
    Escrow.Step (s.book env) (x.now, .swept amount.toNat) (s'.book env) := by
  rw [book_of_some h.epoch, book_of_some h.epoch', h.emptied, h.amount, h.claimed]
  exact .swept rfl h.closed

/-- Every step of the program is a step of the epoch's book. -/
theorem Step.book (h : Step env s ev s') :
    Escrow.Step (s.book env) (ev.now, ev.report.entry) (s'.book env) := by
  obtain ⟨now, r⟩ := ev
  cases r with
  | opened total =>
      obtain ⟨x, rfl, rfl, heff⟩ := h.opened_inv
      exact heff.book
  | pushed items =>
      obtain ⟨x, e, rfl, heff⟩ := h.pushed_inv
      exact heff.book
  | finalized merkleRoot merkleTotal =>
      obtain ⟨e, heff⟩ := h.finalized_inv
      exact heff.book
  | claimed wallet amount =>
      obtain ⟨x, e, rfl, rfl, rfl, hsigner, heff⟩ := h.claimed_inv
      exact heff.book hsigner
  | swept amount =>
      obtain ⟨x, e, rfl, heff⟩ := h.swept_inv
      exact heff.book
  | configured config =>
      rw [h.configured_inv]
      exact .donated
  | external n =>
      obtain ⟨L, hL, rfl⟩ := h.external_inv
      have hbook : Distribution.book env { s with ledger := L } =
          { s.book env with vault := (s.book env).vault + n } := by
        unfold Distribution.book
        cases s.epoch with
        | none => simp only [hL.vault]
        | some e => simp only [hL.vault]
      rw [hbook]
      exact .donated

/-- A run of the program is a run of the epoch's book. -/
theorem EpochRun.book {clock clock' : Int} {tr : List Event}
    (h : EpochRun env (s, clock) tr (s', clock')) :
    Run Escrow.ClockedStep (s.book env, clock) (tr.map Event.entry) (s'.book env, clock') :=
  h.simulate (f := fun p => (p.1.book env, p.2)) fun _ _ _ hstep =>
    ⟨hstep.step.book, hstep.le_now, hstep.clock⟩

end Book

/-! ### What a run guarantees -/

/-- What holds of an epoch after the steps `tr`, which led to `s` at `clock`. -/
structure EpochSound (env : EpochEnv) (tr : List Event) (s : Distribution) (clock : Int) :
    Prop where
  /-- What was pushed and what the tree promises fit in the total. -/
  total_le : ∀ e, s.epoch = some e →
    e.pushedAmount.toNat + e.merkleTotal.toNat ≤ e.totalAmount.toNat
  claimed_le : ∀ e, s.epoch = some e → e.claimedAmount.toNat ≤ e.merkleTotal.toNat
  /-- Until the first sweep the vault holds what has not been paid out. -/
  funded : (∀ ev ∈ tr, ev.report.entry.SweepFree) → ∀ e, s.epoch = some e →
    e.totalAmount.toNat - e.pushedAmount.toNat - e.claimedAmount.toNat ≤ s.ledger.amount env.vault
  /-- No payout fails for lack of funds, now or later. -/
  push_funded : ∀ x, handlePushPayouts env s x ≠ .error (.token .insufficientFunds)
  claim_funded : ∀ x, clock ≤ x.now → handleClaim env s x ≠ .error (.token .insufficientFunds)
  /-- No push and no finalize after a finalize or a sweep. -/
  no_push : (∃ ev ∈ tr, ev.report.entry.Closes) → ∀ x, ¬ Accepted (handlePushPayouts env s x)
  no_finalize : (∃ ev ∈ tr, ev.report.entry.Closes) → ∀ keeper merkleRoot merkleTotal,
    ¬ Accepted (handleFinalizeEpoch s keeper merkleRoot merkleTotal)
  /-- Each wallet claims at most once. -/
  no_second_claim : ∀ x : ClaimInput, (∃ ev ∈ tr, ev.report.entry.ClaimedBy x.wallet) →
    ¬ Accepted (handleClaim env s x)
  /-- Claims and sweeps are never open at the same time. -/
  exclusive : ∀ x y, x.now = y.now →
    ¬ (Accepted (handleClaim env s x) ∧ Accepted (handleSweepUnclaimed env s y))
  no_claim : (∃ ev ∈ tr, ev.report.entry.Sweeps) → ∀ x, clock ≤ x.now →
    ¬ Accepted (handleClaim env s x)

section Handlers

variable {env : EpochEnv} {s : Distribution}

theorem push_ne_insufficientFunds {x : PushInput} {clock : Int}
    (hs : (s.book env).Funded ∨ (s.book env).Settled clock) (hvalid : (s.book env).Valid) :
    handlePushPayouts env s x ≠ .error (.token .insufficientFunds) := by
  intro h
  obtain ⟨e, hchecked, hlt⟩ := handlePushPayouts_insufficientFunds h
  have hbook : s.book env = _ := book_of_some hchecked.epoch
  have htotal := hchecked.total_le
  rcases hs with hs | hs
  · have hclaimed := hvalid.claimed_le
    have hunfin := hvalid.unfinalized
    unfold Escrow.Book.Funded at hs
    rw [hbook] at hs hclaimed hunfin
    have hzero := hunfin hchecked.not_finalized
    dsimp only at hs hclaimed hzero
    omega
  · have hfin := hs.finalized
    rw [hbook] at hfin
    cases hchecked.not_finalized.symm.trans hfin

theorem claim_ne_insufficientFunds {x : ClaimInput} {clock : Int}
    (hs : (s.book env).Funded ∨ (s.book env).Settled clock) (hvalid : (s.book env).Valid)
    (hnow : clock ≤ x.now) : handleClaim env s x ≠ .error (.token .insufficientFunds) := by
  intro h
  obtain ⟨e, hchecked, hlt⟩ := handleClaim_insufficientFunds h
  have hbook : s.book env = _ := book_of_some hchecked.epoch
  have hle := hchecked.total_le
  have hopen := hchecked.open_until
  rcases hs with hs | hs
  · have htotal := hvalid.total_le
    unfold Escrow.Book.Funded at hs
    rw [hbook] at hs htotal
    dsimp only at hs htotal
    omega
  · have hlate := hs.late
    rw [hbook] at hlate
    dsimp only at hlate
    omega

theorem not_accepted_push (hs : (s.book env).Final) (x : PushInput) :
    ¬ Accepted (handlePushPayouts env s x) := by
  intro ⟨⟨s', evs⟩, h⟩
  obtain ⟨e, heff⟩ := handlePushPayouts_ok h
  have hfin := hs.finalized
  rw [book_of_some heff.epoch] at hfin
  cases heff.not_finalized.symm.trans hfin

theorem not_accepted_finalize (hs : (s.book env).Final) (keeper : Pubkey) (merkleRoot : Bytes32)
    (merkleTotal : UInt64) : ¬ Accepted (handleFinalizeEpoch s keeper merkleRoot merkleTotal) := by
  intro ⟨⟨s', ev⟩, h⟩
  obtain ⟨e, heff⟩ := handleFinalizeEpoch_ok h
  have hfin := hs.finalized
  rw [book_of_some heff.epoch] at hfin
  cases heff.not_finalized.symm.trans hfin

theorem not_accepted_second_claim {x : ClaimInput} (hs : x.wallet ∈ (s.book env).claimants) :
    ¬ Accepted (handleClaim env s x) := by
  intro ⟨⟨s', ev⟩, h⟩
  obtain ⟨e, heff⟩ := handleClaim_ok h
  rw [book_claimants] at hs
  obtain ⟨c, hc, heq⟩ := List.mem_map.mp hs
  exact heff.unclaimed c hc heq

theorem not_accepted_late_claim {x : ClaimInput} {clock : Int} (hs : (s.book env).Settled clock)
    (hnow : clock ≤ x.now) : ¬ Accepted (handleClaim env s x) := by
  intro ⟨⟨s', ev⟩, h⟩
  obtain ⟨e, heff⟩ := handleClaim_ok h
  have hlate := hs.late
  have hopen := heff.open_until
  rw [book_of_some heff.epoch] at hlate
  dsimp only at hlate
  omega

theorem claim_sweep_exclusive {x : ClaimInput} {y : SweepInput} (hnow : x.now = y.now) :
    ¬ (Accepted (handleClaim env s x) ∧ Accepted (handleSweepUnclaimed env s y)) := by
  intro ⟨⟨⟨s₁, ev₁⟩, h₁⟩, ⟨⟨s₂, ev₂⟩, h₂⟩⟩
  obtain ⟨e₁, hclaim⟩ := handleClaim_ok h₁
  obtain ⟨e₂, hsweep⟩ := handleSweepUnclaimed_ok h₂
  cases hclaim.epoch.symm.trans hsweep.epoch
  have hopen := hclaim.open_until
  have hclosed := hsweep.closed
  omega

end Handlers

/-- The book of an epoch that was not opened yet satisfies every invariant. -/
theorem book_fresh (env : EpochEnv) {s : Distribution} (h : s.epoch = none) :
    (s.book env).Valid ∧ (s.book env).Funded := by
  rw [book_of_none h]
  exact ⟨⟨le_refl _, le_refl _, fun _ => rfl⟩, Nat.zero_le _⟩

/-- A label's entry is in the book's run. -/
theorem exists_entry {tr : List Event} {p : Escrow.Entry Pubkey → Prop}
    (h : ∃ ev ∈ tr, p ev.report.entry) : ∃ a ∈ tr.map Event.entry, p a.2 := by
  obtain ⟨ev, hev, hp⟩ := h
  exact ⟨ev.entry, List.mem_map_of_mem hev, hp⟩

/-- Epoch accounting and no double pay. Whatever the signers, the arguments, the order
of the instructions and the changes of the configuration, a run from an epoch not
opened yet leads to a sound one, and the vault never pays out more than the total
and what it was given besides. -/
theorem epoch_accounting {env : EpochEnv} {s s' : Distribution} {clock clock' : Int}
    {tr : List Event} (hfresh : s.epoch = none) (h : EpochRun env (s, clock) tr (s', clock')) :
    EpochSound env tr s' clock' ∧
      paidOut tr ≤ (s'.book env).total + (s.ledger.amount env.vault + donated tr) := by
  have hbook := h.book
  obtain ⟨hvalid₀, hfunded₀⟩ := book_fresh env hfresh
  have hvalid : (s'.book env).Valid := Escrow.valid_of_run hbook hvalid₀
  have hfunds : (s'.book env).Funded ∨ (s'.book env).Settled clock' :=
    Escrow.funded_or_settled_of_run hbook hfunded₀
  constructor
  · exact {
      total_le := by
        intro e he
        have := hvalid.total_le
        rwa [book_of_some he] at this
      claimed_le := by
        intro e he
        have := hvalid.claimed_le
        rwa [book_of_some he] at this
      funded := by
        intro htr e he
        have hfunded : (s'.book env).Funded := Escrow.funded_of_run hbook hfunded₀ (by
          intro a ha
          obtain ⟨ev, hev, rfl⟩ := List.mem_map.mp ha
          exact htr ev hev)
        unfold Escrow.Book.Funded at hfunded
        rw [book_of_some he] at hfunded
        dsimp only at hfunded
        omega
      push_funded := fun x => push_ne_insufficientFunds hfunds hvalid
      claim_funded := fun x hnow => claim_ne_insufficientFunds hfunds hvalid hnow
      no_push := fun htr => not_accepted_push (Escrow.final_of_run hbook (exists_entry htr))
      no_finalize := fun htr => not_accepted_finalize (Escrow.final_of_run hbook (exists_entry htr))
      no_second_claim := fun x htr =>
        not_accepted_second_claim (Escrow.mem_claimants_of_run hbook (exists_entry htr))
      exclusive := fun x y hnow => claim_sweep_exclusive hnow
      no_claim := fun htr x hnow =>
        not_accepted_late_claim (Escrow.settled_of_run hbook (exists_entry htr)) hnow }
  · have hvault := Escrow.vault_of_run hbook
    simp only [List.map_map, Function.comp_def, Event.entry, book_vault] at hvault
    rw [book_of_none hfresh] at hvault
    unfold paidOut donated
    dsimp only at hvault
    omega

namespace Sample

/-- `walletC` claims with the sibling of its carried leaf. -/
def claimC : ClaimInput where
  now := 2000
  wallet := walletC
  amount := 30
  proof := [nodeAB]

def claimed : Distribution :=
  (acceptedValue (handleClaim env finalized claimC) (by decide +kernel)).1

/-- The first second a sweep is accepted in. -/
def sweepInput : SweepInput where
  now := 15552901
  admin := Bytes32.fill 0x08
  treasury := Bytes32.fill 0x07

def swept : Distribution × EpochSwept :=
  acceptedValue (handleSweepUnclaimed env claimed sweepInput) (by decide +kernel)

/-- The sweep takes what two wallets did not claim, the slack of 10 and the gift. -/
def trace : List Event :=
  [⟨1000, .opened 100⟩, ⟨1100, .pushed [{ wallet := walletD, amount := 30 }]⟩,
    ⟨1200, .finalized root 60⟩, ⟨2000, .claimed walletC 30⟩, ⟨15552901, .swept 45⟩]

theorem run_finalized : EpochRun env (fresh, 1000)
    [⟨1000, .opened 100⟩, ⟨1100, .pushed [{ wallet := walletD, amount := 30 }]⟩,
      ⟨1200, .finalized root 60⟩] (finalized, 1200) := by
  have hopen : Step env fresh ⟨1000, .opened 100⟩ opened :=
    .openEpoch (x := openInput) (eq_ok_acceptedValue (by decide +kernel))
  have hpush : Step env opened ⟨1100, .pushed [{ wallet := walletD, amount := 30 }]⟩ pushed :=
    .pushPayouts (x := pushInput) (eq_ok_acceptedValue (by decide +kernel))
  have hfinalize : Step env pushed ⟨1200, .finalized root 60⟩ finalized :=
    .finalizeEpoch (eq_ok_acceptedValue
      (x := handleFinalizeEpoch pushed (Bytes32.fill 0x08) root 60) (by decide +kernel))
  exact .cons (hopen.clocked (by decide)) (.cons (hpush.clocked (by decide))
    (.single (hfinalize.clocked (by decide))))

theorem run_trace : EpochRun env (fresh, 1000) trace (swept.1, 15552901) := by
  have hclaim : Step env finalized ⟨2000, .claimed walletC 30⟩ claimed :=
    .claim (x := claimC) (eq_ok_acceptedValue (by decide +kernel)) (by decide)
  have hamount : swept.2.amount = 45 := by decide +kernel
  have hsweep : Step env claimed ⟨15552901, .swept swept.2.amount⟩ swept.1 :=
    .sweepUnclaimed (x := sweepInput) (eq_ok_acceptedValue (by decide +kernel))
  rw [hamount] at hsweep
  exact run_finalized.append (.cons (hclaim.clocked (by decide))
    (.single (hsweep.clocked (by decide))))

end Sample

/-- An epoch whose vault was given 5 units, through a push, a claim and a sweep. -/
theorem epoch_accounting_sample :
    EpochSound Sample.env Sample.trace Sample.swept.1 15552901 ∧
      paidOut Sample.trace ≤ (Sample.swept.1.book Sample.env).total +
        (Sample.fresh.ledger.amount Sample.env.vault + donated Sample.trace) :=
  epoch_accounting rfl Sample.run_trace

end IceMarkets.Distributor
