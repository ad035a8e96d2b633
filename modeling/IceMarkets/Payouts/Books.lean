import IceMarkets.Payouts.Refinement
import Mathlib.Algebra.Order.BigOperators.Group.Finset

/-!
# IceMarkets.Payouts.Books

From fees to holders: what the epochs of a pool pay out was put aside for its holders by the
claims of its fees, or was given.
-/

namespace IceMarkets.Payouts

open Lts Books Distributor
open FeeRouter (ProgramStep Vault)

section

variable {env : PayoutEnv} {s s' s₀ : PayoutSystem} {clock₀ clock : Int}
  {tr : List (Int × PayoutAct)}

/-! ### What is counted -/

/-- The two ways an epoch pays wallets. -/
inductive Channel
  | pushes
  | claims
  deriving DecidableEq, Repr

/-- An epoch's own counter of a channel. -/
def Channel.counter : Channel → Epoch → Nat
  | pushes, e => e.pushedAmount.toNat
  | claims, e => e.claimedAmount.toNat

namespace PayoutSystem

/-- What an epoch was opened with. -/
def totalOf (s : PayoutSystem) (id : EpochId) : Nat :=
  match s.epochs id with
  | some e => e.totalAmount.toNat
  | none => 0

/-- What an epoch says it paid to wallets in one way. -/
def counterOf (s : PayoutSystem) (channel : Channel) (id : EpochId) : Nat :=
  match s.epochs id with
  | some e => channel.counter e
  | none => 0

/-- What an epoch says it paid to wallets. -/
def paidOf (s : PayoutSystem) (id : EpochId) : Nat :=
  s.counterOf .pushes id + s.counterOf .claims id

variable {id : EpochId}

theorem totalOf_of_some {e : Epoch} (h : s.epochs id = some e) :
    s.totalOf id = e.totalAmount.toNat := by
  unfold totalOf
  rw [h]

theorem counterOf_of_some {channel : Channel} {e : Epoch} (h : s.epochs id = some e) :
    s.counterOf channel id = channel.counter e := by
  unfold counterOf
  rw [h]

theorem totalOf_of_none (h : s.epochs id = none) : s.totalOf id = 0 := by
  unfold totalOf
  rw [h]

theorem counterOf_of_none {channel : Channel} (h : s.epochs id = none) :
    s.counterOf channel id = 0 := by
  unfold counterOf
  rw [h]

end PayoutSystem

namespace PayoutAct

/-- Paid to the holders of a pool's coin by a claim of its fees. -/
def pays (pool : Pubkey) : PayoutAct → Nat
  | router act => act.pays pool .holders
  | _ => 0

/-- Drawn from a pool's holder vault to open one of its epochs. -/
def drawn (pool : Pubkey) : PayoutAct → Nat
  | opened id _ _ routed total => if routed = true ∧ id.pool = pool then total.toNat else 0
  | _ => 0

/-- Given by a signer to open one of a pool's epochs. -/
def funded (pool : Pubkey) : PayoutAct → Nat
  | opened id _ _ routed total => if routed = false ∧ id.pool = pool then total.toNat else 0
  | _ => 0

/-- Withdrawn from a pool's holder vault by others than the distributor. -/
def withdrawn (pool : Pubkey) : PayoutAct → Nat
  | router act => act.taken (.holder pool)
  | _ => 0

/-- Sent to wallets of an epoch in one way. -/
def payout (channel : Channel) (id : EpochId) : PayoutAct → Nat
  | pushed id' _ _ items _ => if id' = id ∧ channel = .pushes then itemTotal items else 0
  | claimed id' _ _ amount => if id' = id ∧ channel = .claims then amount.toNat else 0
  | _ => 0

/-- The index of an epoch of the pool that a step opens. -/
def openedIn (pool : Pubkey) : PayoutAct → Option UInt32
  | opened id _ _ _ _ => if id.pool = pool then some id.index else none
  | _ => none

end PayoutAct

/-! ### Books of a step -/

section Steps

theorem PayoutStep.posts {g : Guarded} (hg : g.Known env) :
    Posts (PayoutStep env) (Inv env) (·.router.ledger.amount (g.address env))
      (fun a => a.2.earned g + a.2.given env g) (·.2.taken g) :=
  fun _ _ _ hinv hstep => (hstep.posted hinv).amount g hg

theorem PayoutStep.posts_pays (pool : Pubkey) :
    Posts (PayoutStep env) (Inv env) (·.router.paid pool .holders) (·.2.pays pool) fun _ => 0 := by
  intro s a s' hinv hstep
  cases hstep.done with
  | @router _ act r _ h =>
      exact ProgramStep.posts_paid env.router pool .holders s.router act r hinv.splits h
  | opened _ _ _ _ | pushed _ _ | finalized _ | claimed _ _ _ | swept _ _ | configured _
  | external _ => rfl

/-- The total of an epoch is what it was opened with. -/
theorem PayoutStep.posts_total (id : EpochId) :
    Posts (PayoutStep env) (Inv env) (·.totalOf id) (·.2.opens id) fun _ => 0 := by
  intro s a s' _ hstep
  change s'.totalOf id = s.totalOf id + a.2.opens id
  have hkept := hstep.epochKept id
  cases he : s.epochs id with
  | none =>
      rw [PayoutSystem.totalOf_of_none he, Nat.zero_add]
      cases he' : s'.epochs id with
      | none => rw [PayoutSystem.totalOf_of_none he', hkept.closed he']
      | some e' =>
          obtain ⟨keeper, routed, ha⟩ := hkept.fresh e' he he'
          rw [PayoutSystem.totalOf_of_some he', ha]
          exact (if_pos rfl).symm
  | some e =>
      obtain ⟨hopens, e', he', -, htotal⟩ := hkept.kept e he
      rw [PayoutSystem.totalOf_of_some he, PayoutSystem.totalOf_of_some he', htotal, hopens,
        Nat.add_zero]

/-- An instruction on another epoch counts nothing for this one. -/
theorem counterOf_store (channel : Channel) (id : EpochId) {id' : EpochId} {e e' : Epoch}
    {d : Distribution} {n : Nat} (he : s.epochs id' = some e) (he' : d.epoch = some e')
    (hn : channel.counter e' = channel.counter e + n) :
    (s.store id' d).counterOf channel id = s.counterOf channel id + if id' = id then n else 0 := by
  by_cases hid : id' = id
  · subst hid
    rw [if_pos rfl, PayoutSystem.counterOf_of_some ((store_epochs ..).trans he'),
      PayoutSystem.counterOf_of_some he, hn]
  · rw [if_neg hid]
    unfold PayoutSystem.counterOf
    rw [store_epochs_of_ne (Ne.symm hid), Nat.add_zero]

/-- Each counter of an epoch counts its payouts. -/
theorem PayoutStep.posts_counter (channel : Channel) (id : EpochId) :
    Posts (PayoutStep env) (Inv env) (·.counterOf channel id) (·.2.payout channel id)
      fun _ => 0 := by
  intro s a s' _ hstep
  change s'.counterOf channel id = s.counterOf channel id + a.2.payout channel id
  cases hstep.done with
  | router _ _ => rfl
  | @opened id' mint x ev d hid hknown hsigns h =>
      have heff := handleOpenEpoch_ok h
      obtain ⟨e, he, -, -, hpushed, -, hclaimed, -⟩ := heff.epoch
      by_cases hne : id = id'
      · subst hne
        rw [PayoutSystem.counterOf_of_some ((store_epochs ..).trans he),
          PayoutSystem.counterOf_of_none heff.fresh]
        cases channel with
        | pushes => exact congrArg UInt64.toNat hpushed
        | claims => exact congrArg UInt64.toNat hclaimed
      · unfold PayoutSystem.counterOf
        rw [store_epochs_of_ne hne]
        rfl
  | @pushed _ id' e x evs d he h =>
      obtain ⟨e₀, heff⟩ := handlePushPayouts_ok h
      obtain ⟨pushed, hpushed, he'⟩ := heff.epoch'
      cases channel with
      | pushes =>
          rw [counterOf_store .pushes id heff.epoch he' (n := itemTotal x.items) hpushed]
          simp [PayoutAct.payout]
      | claims =>
          rw [counterOf_store .claims id heff.epoch he' (n := 0) rfl]
          simp [PayoutAct.payout]
  | @finalized _ id' keeper merkleRoot merkleTotal ev d h =>
      obtain ⟨e, heff⟩ := handleFinalizeEpoch_ok h
      have hcounter := counterOf_store channel id (n := 0) heff.epoch
        (congrArg Distribution.epoch heff.state) (by cases channel <;> rfl)
      rwa [ite_self] at hcounter
  | @claimed id' e x ev d he hsigner h =>
      obtain ⟨e₀, heff⟩ := handleClaim_ok h
      obtain ⟨newClaimed, hnew, he'⟩ := heff.epoch'
      cases channel with
      | pushes =>
          rw [counterOf_store .pushes id heff.epoch he' (n := 0) rfl]
          simp [PayoutAct.payout]
      | claims =>
          rw [counterOf_store .claims id heff.epoch he' (n := x.amount.toNat) hnew]
          simp [PayoutAct.payout]
  | @swept id' e x ev d he h =>
      obtain ⟨e₀, heff⟩ := handleSweepUnclaimed_ok h
      have hcounter := counterOf_store channel id (n := 0) heff.epoch heff.epoch'
        (by cases channel <;> rfl)
      rwa [ite_self] at hcounter
  | configured _ => rfl
  | external _ => rfl

end Steps

/-! ### Books of a run -/

section Runs

theorem PayoutRun.steps {p p' : PayoutSystem × Int} (h : PayoutRun env p tr p') :
    Run (PayoutStep env) p.1 tr p'.1 := by
  have hsteps := h.simulate (f := Prod.fst) (g := id) fun _ _ _ hstep => hstep.step
  rwa [List.map_id] at hsteps

/-- What starts at zero and is never taken from. -/
theorem counted {bal : PayoutSystem → Nat} {credit : Int × PayoutAct → Nat}
    (hposts : Posts (PayoutStep env) (Inv env) bal credit fun _ => 0) (hfresh : s₀.Fresh env)
    (hzero : bal s₀ = 0) (h : PayoutRun env (s₀, clock₀) tr (s, clock)) :
    bal s = total credit tr := by
  have hbooks := hposts.run (fun _ _ _ hstep hinv => hstep.inv hinv) h.steps hfresh.inv
  rw [total_eq_zero (f := fun _ => 0) fun _ _ => rfl, hzero, Nat.add_zero, Nat.zero_add] at hbooks
  exact hbooks

/-- An epoch at the end of a run was there, or was opened. -/
theorem PayoutRun.opened {p p' : PayoutSystem × Int} (h : PayoutRun env p tr p') {id : EpochId}
    {e' : Epoch} (he' : p'.1.epochs id = some e') :
    p.1.epochs id ≠ none ∨ ∃ a ∈ tr, a.2.openedIn id.pool = some id.index := by
  induction h with
  | nil p =>
      rw [he']
      exact .inl nofun
  | @cons p q p' a tr head _ ih =>
      rcases ih he' with hsome | ⟨b, hb, hopened⟩
      · by_cases hp : p.1.epochs id = none
        · obtain ⟨e, he⟩ := Option.ne_none_iff_exists'.mp hsome
          obtain ⟨keeper, routed, ha⟩ := (head.step.epochKept id).fresh e hp he
          refine .inr ⟨a, List.mem_cons_self, ?_⟩
          rw [ha]
          exact if_pos rfl
        · exact .inl hp
      · exact .inr ⟨b, List.mem_cons_of_mem _ hb, hopened⟩

/-- The epochs of a pool are finitely many. -/
theorem exists_epochs (hfresh : s₀.Fresh env) (h : PayoutRun env (s₀, clock₀) tr (s, clock))
    (pool : Pubkey) : ∃ S : Finset UInt32, ∀ index, index ∈ S ↔ s.epochs ⟨pool, index⟩ ≠ none := by
  refine ⟨(tr.filterMap fun a => a.2.openedIn pool).toFinset.filter
    fun index => (s.epochs ⟨pool, index⟩).isSome, ?_⟩
  intro index
  rw [Finset.mem_filter, List.mem_toFinset, Option.isSome_iff_ne_none]
  refine and_iff_right_of_imp fun hsome => ?_
  obtain ⟨e, he⟩ := Option.ne_none_iff_exists'.mp hsome
  rcases h.opened he with hnone | ⟨a, ha, hopened⟩
  · exact absurd (hfresh.epochs _) hnone
  · exact List.mem_filterMap.mpr ⟨a, ha, hopened⟩

theorem PayoutStep.epoch_of_opened {a : Int × PayoutAct} (hstep : PayoutStep env s a s')
    {id : EpochId} {mint keeper : Pubkey} {routed : Bool} {t : UInt64}
    (ha : a.2 = .opened id mint keeper routed t) : s'.epochs id ≠ none := by
  cases hstep.done <;> cases ha
  next hid hknown hsigns h =>
    obtain ⟨e, he, -⟩ := (handleOpenEpoch_ok h).epoch
    rw [store_epochs, he]
    nofun

/-- An epoch that was opened is there. -/
theorem PayoutRun.epoch_of_mem {p p' : PayoutSystem × Int} (h : PayoutRun env p tr p')
    {a : Int × PayoutAct} (ha : a ∈ tr) {id : EpochId} {mint keeper : Pubkey} {routed : Bool}
    {t : UInt64} (hact : a.2 = .opened id mint keeper routed t) : p'.1.epochs id ≠ none := by
  induction h with
  | nil p => cases ha
  | @cons p q p' b tr head tail ih =>
      rcases List.mem_cons.mp ha with rfl | ha
      · obtain ⟨e, he⟩ := Option.ne_none_iff_exists'.mp (head.step.epoch_of_opened hact)
        obtain ⟨e', he', -⟩ := PayoutRun.epochKept tail he
        rw [he']
        nofun
      · exact ih ha

/-- The epochs of a pool are opened with what is drawn from its vault, or given. -/
theorem sum_opens (hfresh : s₀.Fresh env) (h : PayoutRun env (s₀, clock₀) tr (s, clock))
    {pool : Pubkey} {S : Finset UInt32} (hS : ∀ index, index ∈ S ↔ s.epochs ⟨pool, index⟩ ≠ none) :
    ∑ index ∈ S, s.totalOf ⟨pool, index⟩ =
      total (·.2.drawn pool) tr + total (·.2.funded pool) tr := by
  have htotal : ∀ index, s.totalOf ⟨pool, index⟩ = total (·.2.opens ⟨pool, index⟩) tr :=
    fun index => counted (PayoutStep.posts_total ⟨pool, index⟩) hfresh
      (PayoutSystem.totalOf_of_none (hfresh.epochs _)) h
  simp only [htotal, ← total_sum, ← total_add]
  refine total_congr fun a ha => ?_
  cases hact : a.2 with
  | opened id mint keeper routed t =>
      simp only [PayoutAct.opens]
      by_cases hpool : id.pool = pool
      · subst hpool
        have hmem : id.index ∈ S := (hS _).mpr (h.epoch_of_mem ha hact)
        rw [Finset.sum_eq_single_of_mem id.index hmem fun index _ hne => if_neg fun heq => hne ?_]
        · cases routed <;> simp [PayoutAct.drawn, PayoutAct.funded]
        · rw [heq]
      · rw [Finset.sum_eq_zero fun index _ => if_neg fun heq => hpool (by rw [heq])]
        simp [PayoutAct.drawn, PayoutAct.funded, hpool]
  | router _ | pushed _ _ _ _ _ | finalized _ _ _ _ | claimed _ _ _ _ | swept _ _ _ _ _
  | configured _ _ | external _ => simp [PayoutAct.opens, PayoutAct.drawn, PayoutAct.funded]

/-- What was paid to wallets of a pool's epochs comes from what they were opened with. -/
theorem paidOf_le (hfresh : s₀.Fresh env) (h : PayoutRun env (s₀, clock₀) tr (s, clock))
    (id : EpochId) : s.paidOf id ≤ s.totalOf id := by
  cases he : s.epochs id with
  | none =>
      unfold PayoutSystem.paidOf
      simp only [PayoutSystem.counterOf_of_none he]
      exact Nat.zero_le _
  | some e =>
      unfold PayoutSystem.paidOf
      rw [PayoutSystem.counterOf_of_some he, PayoutSystem.counterOf_of_some he,
        PayoutSystem.totalOf_of_some he]
      obtain ⟨htotal, hclaimed⟩ := h.valid hfresh he
      simp only [Channel.counter]
      omega

/-- The books of a pool's holders after the steps `tr`, which led to `s`. -/
structure HoldersBacked (env : PayoutEnv) (tr : List (Int × PayoutAct)) (s : PayoutSystem)
    (pool : Pubkey) (S : Finset UInt32) : Prop where
  /-- The holder vault has what claims of fees and others put there, less what was drawn for
  epochs and withdrawn by others than the distributor. -/
  vault : s.router.ledger.amount (env.router.address (.holder pool)) +
      (total (·.2.drawn pool) tr + total (·.2.withdrawn pool) tr) =
    s.router.paid pool .holders + total (·.2.given env (.router (.holder pool))) tr
  /-- The pool's epochs were opened with what was drawn or given for them. -/
  opened : ∑ index ∈ S, s.totalOf ⟨pool, index⟩ =
    total (·.2.drawn pool) tr + total (·.2.funded pool) tr
  /-- An epoch counts what it pushes and what is claimed from it. -/
  counts : ∀ index channel, s.counterOf channel ⟨pool, index⟩ =
    total (·.2.payout channel ⟨pool, index⟩) tr
  /-- What wallets got, and what is still there for the holders, was put aside or given. -/
  paid_le : ∑ index ∈ S, s.paidOf ⟨pool, index⟩ +
      s.router.ledger.amount (env.router.address (.holder pool)) ≤
    s.router.paid pool .holders + total (·.2.given env (.router (.holder pool))) tr +
      total (·.2.funded pool) tr

/-- From fees to holders, over any run of the two programs: all that the epochs of a pool pay
out was put aside for its holders by the claims of its fees, or was given. -/
theorem holders_backed (hfresh : s₀.Fresh env) (h : PayoutRun env (s₀, clock₀) tr (s, clock))
    {pool : Pubkey} (hpool : env.router.isAccount pool = true) :
    ∃ S : Finset UInt32, (∀ index, index ∈ S ↔ s.epochs ⟨pool, index⟩ ≠ none) ∧
      HoldersBacked env tr s pool S := by
  obtain ⟨S, hS⟩ := exists_epochs hfresh h pool
  refine ⟨S, hS, ?_⟩
  have hvault : Vault.Known env.router (.holder pool) := hpool
  have hbooks := (PayoutStep.posts (g := .router (.holder pool)) hvault).run
    (fun _ _ _ hstep hinv => hstep.inv hinv) h.steps hfresh.inv
  have hzero := hfresh.router.amount_eq_zero hvault (by simp)
  have hpaid : s.router.paid pool .holders = total (·.2.pays pool) tr :=
    counted (PayoutStep.posts_pays pool) hfresh
      (FeeRouter.paid_of_none (hfresh.router.pools pool)) h
  have hearned : total (fun a => a.2.earned (.router (.holder pool))) tr =
      total (·.2.pays pool) tr := by
    refine total_congr fun a _ => ?_
    cases a.2 with
    | router act =>
        cases act <;> simp [PayoutAct.earned, PayoutAct.pays, FeeRouter.ProgramAct.earned,
          FeeRouter.ProgramAct.pays, FeeRouter.ClaimEvents.credit, FeeRouter.ClaimEvents.paid,
          eq_comm]
    | opened _ _ _ _ _ | pushed _ _ _ _ _ | finalized _ _ _ _ | claimed _ _ _ _
    | swept _ _ _ _ _ | configured _ _ | external _ => rfl
  have htaken : total (fun a => a.2.taken (.router (.holder pool))) tr =
      total (·.2.drawn pool) tr + total (·.2.withdrawn pool) tr := by
    rw [← total_add]
    refine total_congr fun a _ => ?_
    cases a.2 with
    | opened id _ _ routed t =>
        simp [PayoutAct.taken, PayoutAct.drawn, PayoutAct.withdrawn, eq_comm]
    | router _ | pushed _ _ _ _ _ | finalized _ _ _ _ | claimed _ _ _ _ | swept _ _ _ _ _
    | configured _ _ | external _ =>
        simp [PayoutAct.taken, PayoutAct.drawn, PayoutAct.withdrawn]
  have hopened := sum_opens hfresh h hS
  have hle : ∑ index ∈ S, s.paidOf ⟨pool, index⟩ ≤ ∑ index ∈ S, s.totalOf ⟨pool, index⟩ :=
    Finset.sum_le_sum fun index _ => paidOf_le hfresh h _
  rw [total_add, hearned, ← hpaid] at hbooks
  change s.router.ledger.amount (env.router.address (.holder pool)) + _ =
    s₀.router.ledger.amount (env.router.address (.holder pool)) + _ at hbooks
  rw [htaken, hzero, Nat.zero_add] at hbooks
  exact {
    vault := hbooks
    opened := hopened
    counts := fun index channel => counted (PayoutStep.posts_counter channel ⟨pool, index⟩) hfresh
      (PayoutSystem.counterOf_of_none (hfresh.epochs _)) h
    paid_le := by omega }

end Runs

end

open PayoutSample in
open FeeRouter.ProgramSample (pool) in
/-- Of the 501 units for the holders 500 reach the wallets. -/
theorem holders_backed_sample : ∃ S : Finset UInt32,
    (∀ index, index ∈ S ↔ claimed.1.epochs ⟨pool, index⟩ ≠ none) ∧
      HoldersBacked env (posted ++ [claimStep]) claimed.1 pool S :=
  holders_backed fresh_fresh run_trace (by decide +kernel)

end IceMarkets.Payouts
