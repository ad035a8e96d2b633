import IceMarkets.Keeper.OpenedPlan

/-!
# IceMarkets.Keeper.Allocation

What a finalized epoch leaves unallocated.

`finalize_epoch` takes any root and total within the remainder, so it is the plan that has to
fill the epoch. Where the stored rows, and the balances and prices read on resuming, make plans
that come to the total and give nobody less than was pushed (`FittingPlans`), pushes and leaves
come to the total, whatever landed late (`all_allocated`). A plan that is computed again, at
prices of another day, can come out empty, and the epoch is closed with nothing to claim
(`left_unallocated`).
-/

namespace IceMarkets.Keeper

open Distributor Sdk InFlight Async

/-- A finalized epoch is allocated to its holders. -/
def AllAllocated (c : Chain) : Prop :=
  ∀ index e, c.epochs index = some e → e.finalized = true →
    e.pushedAmount.toNat + e.merkleTotal.toNat = e.totalAmount.toNat

/-- Runs that resume with plans that fill their epochs. -/
def Regime.fittingPlans (env : KeeperEnv) : Regime env where
  allowed := FittingPlans env
  kept := False
  fits := True
  once := False
  keeps := nofun
  fitting _ _ _ h := h
  settled := nofun

section Runs

variable {env : KeeperEnv} {c c' : Chain}

/-- The leaves of a finalization that was signed fill the epoch, on top of what was paid, or it
was closed before. -/
def LeavesFill (c : Chain) : Prop :=
  ∀ tx ∈ c.signed, ∀ index root total, tx.payload = .finalizeEpoch index root total →
    ∃ e, c.epochs index = some e ∧ (e.finalized = true ∨
      e.totalAmount.toNat ≤ planTotal (c.paid index) + UInt64.toNat total)

theorem LeavesFill.grows (h : LeavesFill c) (hg : c.Grows c') (hsigned : c'.signed = c.signed) :
    LeavesFill c' := by
  intro tx htx index root total hp
  rw [hsigned] at htx
  obtain ⟨e, he, hfill⟩ := h tx htx index root total hp
  obtain ⟨e', he', hev⟩ := hg.epochs index e he
  refine ⟨e', he', ?_⟩
  rcases hfill with hfin | hle
  · exact .inl (hev.finalized hfin)
  · right
    rw [hev.totalAmount]
    have hpaid := planTotal_le_of_subperm (hg.paid index)
    omega

/-- A landing allocates all, or leaves the epoch open. -/
theorem AllAllocated.land (h : AllAllocated c) (hfill : LeavesFill c) (hc : ChainInv c) {sig : Nat}
    {s : Sent PayoutTx} {e : Epoch} (hs : c.txs[sig]? = some s)
    (hrecord : record env c s.message.payload = some e) :
    AllAllocated (c.land sig s.message.payload.index e) := by
  have hself : (c.land sig s.message.payload.index e).epochs s.message.payload.index = some e :=
    Function.update_self ..
  intro index e' he' hfin
  by_cases hi : index = s.message.payload.index
  · subst hi
    cases hself.symm.trans he'
    have hsigned : s.message ∈ c.signed := List.mem_map_of_mem (List.mem_of_getElem? hs)
    have haccepted := accepted_of_record hrecord
    generalize hpayload : s.message.payload = payload at haccepted
    cases haccepted with
    | opened _ _ => cases hfin
    | pushed _ hopen _ _ =>
        simp only at hfin
        rw [hopen] at hfin
        cases hfin
    | @closed i root total old hold hopen hle =>
        obtain ⟨e'', he'', hfills⟩ := hfill s.message hsigned i root total hpayload
        cases hold.symm.trans he''
        have hle' := hfills.resolve_left (by simp [hopen])
        have hpushed := (hc.facts i old hold).pushed
        simp only
        omega
  · exact h index e' ((Function.update_of_ne hi _ _).symm.trans he') hfin

theorem allAllocated_kept : KeptInRuns (Regime.fittingPlans env) fun w =>
    LeavesFill w.chain ∧ AllAllocated w.chain where
  submit := by
    intro w tx _ hw _ hpre
    refine ⟨?_, hw.2⟩
    intro tx' htx' index root total hp
    rw [(sameEpoch_submit w.chain tx index).epochs, (sameEpoch_submit w.chain tx index).paid]
    rcases mem_signed_submit htx' with htx' | rfl
    · exact hw.1 tx' htx' index root total hp
    · rw [SubmitPromise, hp] at hpre
      have hfill := hpre.filled trivial
      rwa [hp] at hfill
  land w sig s e hI hw hs hp hrecord :=
    ⟨hw.1.grows (.land hs hp hrecord) signed_settle, hw.2.land hw.1 hI.chain hs hrecord⟩
  expire w sig s hw hs hp := by
    refine ⟨?_, hw.2⟩
    intro tx htx index root total hpayload
    simp only [Chain.signed, messages_settle] at htx
    simp only [Chain.paid, landedOf_expire hs hp]
    exact hw.1 tx htx index root total hpayload
  claim w index e claimed hw he := by
    refine ⟨hw.1.grows (.claim he) rfl, ?_⟩
    intro i e' he' hfin
    by_cases hi : i = index
    · subst hi
      cases (Function.update_self ..).symm.trans he'
      exact hw.2 i e he hfin
    · exact hw.2 i e' ((Function.update_of_ne hi _ _).symm.trans he') hfin
  save _ _ _ hw _ _ := hw
  same w w' hw hepochs htxs _ := by
    refine ⟨hw.1.grows (.of_eq hepochs htxs) (by simp only [Chain.signed, htxs]), ?_⟩
    intro index e he
    rw [hepochs] at he
    exact hw.2 index e he

/-- Where epochs are resumed with plans that fill them, nothing is left unallocated. -/
theorem all_allocated {tr : List (Act PayoutOp Unit PayoutEvent)} {s : PayoutConfig}
    (h : PayoutRun env (FittingPlans env) tr s) : AllAllocated s.1.chain := by
  refine (PayoutRun.invariant (R := Regime.fittingPlans env) h allAllocated_kept ?_).2.2
  intro w hw
  refine ⟨?_, ?_⟩
  · intro tx htx
    rw [Chain.signed, hw.txs] at htx
    cases htx
  · intro index e he
    rw [hw.epochs index] at he
    cases he

end Runs

namespace Sample

/-- An epoch whose row is lost before anything is pushed, resumed when no balance is worth the
least holding. -/
def rowLost : List (Move Unit PayoutEvent PayoutReply) :=
  .start () :: confirmed 11 ++ [.crash, .env (.progress []),
    .env (.inputs 0 (some 100000000) (some "0.001") oneHolder 1100), .start ()] ++ confirmed 16

/-- An epoch whose row is lost, resumed by a plan computed again from the same balances. -/
def rowComputed : List (Move Unit PayoutEvent PayoutReply) :=
  .start () :: confirmed 11 ++ [.crash, .env (.progress []), .start ()] ++ confirmed 21

/-- Whether a plan fills an epoch. -/
def fits (c : Chain) (index total : Nat) (plan : List EpochPlanItem) : Bool :=
  decide (plan.map (·.wallet)).Nodup && decide (total ≤ planTotal plan) &&
    decide (∀ q ∈ c.payable index, ∀ p ∈ plan, p.wallet = q.wallet → p.amount ≤ q.amount)

theorem fits_of {c : Chain} {index total : Nat} {plan : List EpochPlanItem}
    (h : fits c index total plan = true) : Fits c index total plan := by
  simp only [fits, Bool.and_eq_true, decide_eq_true_iff] at h
  exact ⟨h.1.1, h.1.2, h.2⟩

/-- Whether an epoch is resumed with a plan that fills it. -/
def fittingPlans (w : PayoutWorld) : Act PayoutOp Unit PayoutEvent → Bool
  | .call (.getEpochProgress index) =>
      (w.db.epochProgress index).all fun row => fits w.chain index row.totalAmount row.plan
  | .call (.saveEpochPlan row) =>
      fits w.chain row.epochIndex row.totalAmount (itemsRead env w.reads row)
  | _ => true

theorem fittingPlans_of {w : PayoutWorld} {a : Act PayoutOp Unit PayoutEvent}
    (h : fittingPlans w a = true) :
    FittingPlans env w a where
  stored := by
    intro index hx e _ _ row hrow _
    obtain rfl := hx
    simp only [fittingPlans, hrow, Option.all_some] at h
    exact fits_of h
  computed := by
    intro row hx e _ _ _ _ _
    obtain rfl := hx
    exact fits_of h

end Sample

/-- An epoch whose row was lost, closed with all of it pushed. -/
theorem all_allocated_sample :
    ∃ tr s, PayoutRun Sample.env (FittingPlans Sample.env) tr s ∧
      (s.1.chain.epochs 0).map (·.finalized) = some true ∧ AllAllocated s.1.chain := by
  obtain ⟨tr, s, hrun, hend⟩ := @Machine.exists_run _ _ _ _ _ _ (payoutMachine Sample.env)
    (fun _ => runPayoutsForPool Sample.env) (Sample.freshWorld 10000 Sample.oneHolder 60, none)
    Sample.fittingPlans (FittingPlans Sample.env) (fun _ _ h => Sample.fittingPlans_of h)
    Sample.rowComputed
    (fun _ s => decide ((s.1.chain.epochs 0).map (·.finalized) = some true))
    (by decide +kernel)
  have h : PayoutRun Sample.env (FittingPlans Sample.env) tr s :=
    ⟨_, Sample.freshWorld_fresh .., hrun⟩
  exact ⟨tr, s, h, of_decide_eq_true hend, all_allocated h⟩

/-- The epoch whose row was lost is closed with nothing allocated. -/
theorem left_unallocated :
    ∃ tr s, PayoutRun Sample.env (fun _ _ => True) tr s ∧ ¬AllAllocated s.1.chain := by
  obtain ⟨tr, s, hrun, hend⟩ := @Machine.exists_run _ _ _ _ _ _ (payoutMachine Sample.env)
    (fun _ => runPayoutsForPool Sample.env) (Sample.freshWorld 10000 Sample.oneHolder 60, none)
    (fun _ _ => true) (fun _ _ => True) (fun _ _ _ => trivial) Sample.rowLost
    (fun _ s => (s.1.chain.epochs 0).any fun (e : Epoch) => e.finalized &&
      decide (e.pushedAmount.toNat + e.merkleTotal.toNat ≠ e.totalAmount.toNat)) (by decide +kernel)
  refine ⟨tr, s, ⟨_, Sample.freshWorld_fresh .., hrun⟩, ?_⟩
  intro h
  obtain ⟨e, he, hleft⟩ := (Option.any_eq_true _ _).mp hend
  rw [Bool.and_eq_true, decide_eq_true_iff] at hleft
  exact hleft.2 (h 0 e he hleft.1)

end IceMarkets.Keeper
