import IceMarkets.Keeper.Cycle

/-!
# IceMarkets.Keeper.OpenedPlan

The plan an epoch is paid by, against the plan it was opened with.

A row of `epoch_progress` can be overwritten while its phase is `planned`, and while an
`open_epoch` sent for the plan it held can still land. A row of another total is not taken for
the epoch that lands, and the plan is computed again. Where plans saved for the amount of an
`open_epoch` that can land are made of balances and prices that make its plan (`SavesAgree`),
every push and finalization goes by the plan the epoch was opened with (`pays_opened_plan`).
Otherwise an epoch can be paid by the plan of a cycle that did not open it (`pays_other_plan`).
-/

namespace IceMarkets.Keeper

open Distributor Sdk InFlight Async

/-- Every push and finalization goes by the plan the epoch was opened with. -/
def PaysOpenedPlan (c : Chain) : Prop :=
  ∀ tx ∈ c.signed, tx.pays = true → ∃ e args, c.epochs tx.payload.index = some e ∧
    c.opens tx.payload.index = [(args, tx.plan)] ∧ e.startTs = args.startTs ∧ e.endTs = args.endTs ∧
    e.totalAmount = args.totalAmount

/-- Runs that keep the rows and save plans that agree with what can be opened. -/
def Regime.savesAgree (env : KeeperEnv) : Regime env where
  allowed w a := KeepsRows a ∧ SavesAgree env w a
  kept := True
  fits := False
  once := False
  keeps _ _ _ h := h
  fitting := nofun
  settled := nofun

section Runs

variable {env : KeeperEnv} {c c' : Chain} {w : PayoutWorld} {index : Nat}

/-- A row of the total of something that opened the epoch, or can, is of its plan. -/
def StoredAgrees (w : PayoutWorld) : Prop :=
  ∀ index, ∀ x ∈ w.chain.openable index, ∀ plan,
    w.db.stored index = some (plan, x.1.totalAmount.toNat) → plan = x.2

theorem openable_of_none (h : c.epochs index = none) :
    c.openable index = liveOf (opensOf index) c.txs := if_pos h

theorem openable_of_some {e : Epoch} (h : c.epochs index = some e) :
    c.openable index = c.opens index :=
  if_neg (by simp [h])

/-- Nothing is signed that can open the epoch. -/
theorem openable_submit {tx : PayoutTx} (h : opensOf index tx = []) :
    (c.submit tx).openable index = c.openable index := by
  unfold Chain.openable
  rw [(sameEpoch_submit c tx index).opens]
  simp only [Chain.submit, liveOf_send, h, List.append_nil]

/-- A landing lets nothing open that could not before. -/
theorem mem_openable_land (hc : ChainInv c) {sig : Nat} {s : Sent PayoutTx} {e : Epoch}
    (hs : c.txs[sig]? = some s) (hp : s.status = .pending)
    (hrecord : record env c s.message.payload = some e)
    {x : OpenEpochArgs × List EpochPlanItem}
    (hx : x ∈ (c.land sig s.message.payload.index e).openable index) : x ∈ c.openable index := by
  have hg : c.Grows (c.land sig s.message.payload.index e) := .land hs hp hrecord
  have hlater : Later c.txs (settle c.txs sig .landed) := settle_later hs hp
  cases hafter : (c.land sig s.message.payload.index e).epochs index with
  | none =>
      rw [openable_of_none hafter] at hx
      rw [openable_of_none (epoch_none_of_grows hg hafter)]
      exact hlater.live_sublist.subset hx
  | some e' =>
      rw [openable_of_some hafter] at hx
      have hperm : ((c.land sig s.message.payload.index e).opens index).Perm
          (opensOf index s.message ++ c.opens index) := landedOf_land hs hp
      cases hbefore : c.epochs index with
      | none =>
          rw [openable_of_none hbefore]
          rw [hperm.mem_iff, (hc.untouched index hbefore).opens, List.append_nil] at hx
          exact mem_liveOf.mpr ⟨s, List.mem_of_getElem? hs, by simp [hp], hx⟩
      | some old =>
          rw [openable_of_some hbefore]
          rw [hperm.mem_iff, List.mem_append] at hx
          rcases hx with hx | hx
          · -- a second `open_epoch` is not accepted
            obtain ⟨hpayload, hindex, -⟩ := mem_opensOf.mp hx
            rw [hpayload] at hrecord
            cases accepted_of_record hrecord with
            | opened fresh window =>
                rw [hindex, hbefore] at fresh
                cases fresh
          · exact hx

theorem opens_subset_land {sig : Nat} {s : Sent PayoutTx} {e : Epoch} (hs : c.txs[sig]? = some s)
    (hp : s.status = .pending) {x : OpenEpochArgs × List EpochPlanItem} (hx : x ∈ c.opens index) :
    x ∈ (c.land sig s.message.payload.index e).opens index := by
  have hperm : ((c.land sig s.message.payload.index e).opens index).Perm
      (opensOf index s.message ++ c.opens index) := landedOf_land hs hp
  exact hperm.mem_iff.mpr (List.mem_append_right _ hx)

/-- Epochs stay opened for the plan they were opened for. -/
theorem PaysOpenedPlan.grows (h : PaysOpenedPlan c) (hc : ChainInv c') (hg : c.Grows c')
    (hopens : ∀ i, ∀ x ∈ c.opens i, x ∈ c'.opens i)
    (hsigned : ∀ tx ∈ c'.signed, tx.pays = true → tx ∈ c.signed) :
    PaysOpenedPlan c' := by
  intro tx htx hpays
  obtain ⟨e, args, he, hopen, -⟩ := h tx (hsigned tx htx hpays) hpays
  obtain ⟨e', he', -⟩ := hg.epochs _ e he
  obtain ⟨args', plan', hopen', hfields⟩ := (hc.facts _ e' he').opened
  have hmem := hopens tx.payload.index (args, tx.plan)
    (by rw [hopen]; exact List.mem_singleton_self _)
  rw [hopen', List.mem_singleton] at hmem
  cases hmem
  exact ⟨e', args, he', hopen', hfields⟩

/-- A push or a finalization is signed for the plan the epoch was opened with. -/
theorem opened_plan {kept : Prop} (hI : PayoutInv kept w) (hw : StoredAgrees w) {tx : PayoutTx}
    {acc : Epoch} (hk : kept) (hplan : PlanPromise kept w tx acc) :
    ∃ e args, w.chain.epochs tx.payload.index = some e ∧
      w.chain.opens tx.payload.index = [(args, tx.plan)] ∧ e.startTs = args.startTs ∧
        e.endTs = args.endTs ∧
      e.totalAmount = args.totalAmount := by
  obtain ⟨e, he, hev⟩ := hplan.seen
  have hopened := hplan.opened hk
  unfold PlanOpened at hopened
  rw [hplan.place] at he hopened
  obtain ⟨args, plan, hopen, hstart, hend, htotal⟩ := (hI.chain.facts _ e he).opened
  have hplan : tx.plan = plan := by
    rcases hopened with hstored | hin
    · have hmem : (args, plan) ∈ w.chain.openable tx.payload.index := by
        rw [openable_of_some he, hopen]
        exact List.mem_singleton_self _
      rw [← hev.totalAmount, htotal] at hstored
      exact hw tx.payload.index (args, plan) hmem tx.plan hstored
    · obtain ⟨args', hargs⟩ := hin
      rw [hopen, List.mem_singleton] at hargs
      exact congrArg Prod.snd hargs
  rw [← hplan] at hopen
  exact ⟨e, args, he, hopen, hstart, hend, htotal⟩

/-- An `open_epoch` is sent with its plan in the row. -/
theorem StoredAgrees.submit {R : Regime env} (h : StoredAgrees w) (hk : R.kept) {tx : PayoutTx}
    (hpre : SubmitPromise R w tx) : StoredAgrees { w with chain := w.chain.submit tx } := by
  intro index x hx stored hstored
  by_cases hopen : opensOf index tx = []
  · exact h index x (by rwa [openable_submit hopen] at hx) stored hstored
  obtain ⟨args, plan⟩ := x
  obtain ⟨⟨args', plan'⟩, hy⟩ := List.exists_mem_of_ne_nil _ hopen
  obtain ⟨hpayload, hindex, -⟩ := mem_opensOf.mp hy
  rw [SubmitPromise, hpayload] at hpre
  cases hnone : w.chain.epochs index with
  | some e =>
      refine h index (args, plan) ?_ stored hstored
      have hnone' : (w.chain.submit tx).epochs index = some e := hnone
      rwa [openable_of_some hnone', (sameEpoch_submit w.chain tx index).opens,
        ← openable_of_some hnone] at hx
  | none =>
      have hnone' : (w.chain.submit tx).epochs index = none := hnone
      rw [openable_of_none hnone'] at hx
      simp only [Chain.submit, liveOf_send, List.mem_append] at hx
      rcases hx with hx | hx
      · exact h index (args, plan) (by rwa [openable_of_none hnone]) stored hstored
      · -- what is sent was saved
        obtain ⟨hpayload', -, rfl⟩ := mem_opensOf.mp hx
        cases hpayload.symm.trans hpayload'
        have hsaved := hpre.saved hk (hindex ▸ hnone)
        rw [hindex] at hsaved
        exact congrArg Prod.fst (Option.some.inj (hstored.symm.trans hsaved))

/-- What expires opens nothing any more. -/
theorem mem_openable_expire {sig : Nat} {s : Sent PayoutTx} (hs : c.txs[sig]? = some s)
    (hp : s.status = .pending) {x : OpenEpochArgs × List EpochPlanItem}
    (hx : x ∈ Chain.openable { c with txs := settle c.txs sig .expired } index) :
    x ∈ c.openable index := by
  have hlater : Later c.txs (settle c.txs sig .expired) := settle_later hs hp
  unfold Chain.openable Chain.opens at hx ⊢
  rw [landedOf_expire hs hp] at hx
  split_ifs at hx ⊢
  · exact hlater.live_sublist.subset hx
  · exact hx

section Claimed

variable {e : Epoch} {claimed : UInt64}

/-- A claim neither opens an epoch nor lets one open. -/
theorem openable_claim (he : c.epochs index = some e) (i : Nat) :
    (c.setEpoch index { e with claimedAmount := claimed }).openable i = c.openable i := by
  have hnone : (c.setEpoch index { e with claimedAmount := claimed }).epochs i = none ↔
      c.epochs i = none := by
    by_cases hi : i = index
    · subst hi
      simp [Chain.setEpoch, he]
    · simp [Chain.setEpoch, Function.update_of_ne hi]
  simp only [Chain.openable, hnone]
  rfl

theorem PaysOpenedPlan.claim (h : PaysOpenedPlan c) (he : c.epochs index = some e) :
    PaysOpenedPlan (c.setEpoch index { e with claimedAmount := claimed }) := by
  intro tx htx hpays
  obtain ⟨e', args, he', hrest⟩ := h tx htx hpays
  by_cases hi : tx.payload.index = index
  · subst hi
    cases he.symm.trans he'
    exact ⟨_, args, Function.update_self .., hrest⟩
  · exact ⟨e', args, (Function.update_of_ne hi _ _).trans he', hrest⟩

end Claimed

theorem storedAgrees_kept : KeptInRuns (Regime.savesAgree env) fun w =>
    StoredAgrees w ∧ PaysOpenedPlan w.chain where
  submit := by
    intro w tx hI hw hok hpre
    refine ⟨hw.1.submit (R := Regime.savesAgree env) trivial hpre, ?_⟩
    intro tx' htx' hpays
    rw [(sameEpoch_submit w.chain tx tx'.payload.index).epochs,
      (sameEpoch_submit w.chain tx tx'.payload.index).opens]
    rcases mem_signed_submit htx' with htx' | rfl
    · exact hw.2 tx' htx' hpays
    · obtain ⟨acc, hplan⟩ := exists_planPromise hpre hpays
      exact opened_plan hI hw.1 trivial hplan
  land := by
    intro w sig s e hI hw hs hp hrecord
    refine ⟨?_, ?_⟩
    · intro index x hx
      exact hw.1 index x (mem_openable_land hI.chain hs hp hrecord hx)
    · refine hw.2.grows (hI.chain.land hs hp hrecord) (.land hs hp hrecord)
        (fun i x => opens_subset_land hs hp) ?_
      intro tx htx _
      rwa [signed_settle] at htx
  expire := by
    intro w sig s hw hs hp
    refine ⟨fun index x hx => hw.1 index x (mem_openable_expire hs hp hx), ?_⟩
    intro tx htx hpays
    simp only [Chain.signed, messages_settle] at htx
    simp only [Chain.opens, landedOf_expire hs hp]
    exact hw.2 tx htx hpays
  claim := by
    intro w index e claimed hw he
    refine ⟨?_, hw.2.claim he⟩
    intro i x hx
    exact hw.1 i x (by rwa [openable_claim he] at hx)
  save := by
    intro w row hI hw hok hrow
    refine ⟨?_, hw.2⟩
    intro index x hx stored hstored
    simp only [PayoutDb.stored_saveEpochPlan] at hstored
    split_ifs at hstored with hwrite
    · obtain ⟨rfl, -⟩ := hwrite
      obtain ⟨hplan, htotal⟩ := Prod.mk.inj (Option.some.inj hstored)
      rw [← hplan, hrow]
      exact (hok.2 row rfl x hx htotal.symm).symm
    · exact hw.1 index x hx stored hstored
  same := by
    intro w w' hw hepochs htxs hstored
    refine ⟨?_, ?_⟩
    · intro index x hx
      rw [hstored trivial]
      refine hw.1 index x ?_
      simpa only [Chain.openable, Chain.opens, hepochs, htxs] using hx
    · intro tx htx hpays
      rw [Chain.signed, htxs] at htx
      simpa only [Chain.opens, hepochs, htxs] using hw.2 tx htx hpays

/-- Where plans that are saved agree with what can still be opened for their amount, an epoch is
paid by the plan it was opened with. -/
theorem pays_opened_plan {tr : List (Act PayoutOp Unit PayoutEvent)} {s : PayoutConfig}
    (h : PayoutRun env (fun w a => KeepsRows a ∧ SavesAgree env w a) tr s) :
    PaysOpenedPlan s.1.chain := by
  refine (PayoutRun.invariant (R := Regime.savesAgree env) h storedAgrees_kept ?_).2.2
  intro w hw
  refine ⟨?_, ?_⟩
  · intro index x hx
    rw [openable_of_none (hw.epochs index), hw.txs] at hx
    cases hx
  · intro tx htx
    rw [Chain.signed, hw.txs] at htx
    cases htx

end Runs

namespace Sample

open Distributor.Sample (walletA walletB)

/-- `walletA` holds all. -/
def oneHolder : List (BalanceEvent Pubkey) := [{ wallet := walletA, delta := 5000, ts := 0 }]

/-- `walletB` holds as much from 1000 on. -/
def twoHolders : List (BalanceEvent Pubkey) :=
  [{ wallet := walletA, delta := 5000, ts := 0 }, { wallet := walletB, delta := 5000, ts := 1000 }]

/-- An `open_epoch` that was sent once, and not confirmed. -/
def unconfirmedOpen : List (Move Unit PayoutEvent PayoutReply) :=
  .start () :: confirmed 10 ++ [.reply .lost, .reply .failed, .reply .failed, .finish]

/-- The epoch, opened after all, is resumed up to its first push. -/
def landedAndResumed : List (Move Unit PayoutEvent PayoutReply) :=
  [.env (.chain (.land 0)), .start ()] ++ confirmed 10

/-- A cycle in between plans the same total for other balances, and cannot send anything. -/
def plannedOver : List (Move Unit PayoutEvent PayoutReply) :=
  unconfirmedOpen ++ [.env (.inputs 60 (some 100000000) none twoHolders 1500), .start ()] ++
    confirmed 11 ++
    unsent ++ [.finish] ++ landedAndResumed

/-- Whether an act leaves the rows alone. -/
def keepsRows : Act PayoutOp Unit PayoutEvent → Bool
  | .env (.progress _) => false
  | _ => true

theorem keepsRows_of {a : Act PayoutOp Unit PayoutEvent} (h : keepsRows a = true) :
    KeepsRows a := by
  intro rows hx
  obtain rfl := hx
  cases h

/-- Whether a plan that is saved agrees with what can still be opened for its amount. -/
def savesAgree (w : PayoutWorld) : Act PayoutOp Unit PayoutEvent → Bool
  | .call (.saveEpochPlan row) => decide (∀ x ∈ w.chain.openable row.epochIndex,
      x.1.totalAmount.toNat = row.totalAmount → x.2 = itemsRead env w.reads row)
  | _ => true

theorem savesAgree_of {w : PayoutWorld} {a : Act PayoutOp Unit PayoutEvent}
    (h : savesAgree w a = true) :
    SavesAgree env w a := by
  intro row hx
  obtain rfl := hx
  exact of_decide_eq_true h

/-- The vault grows before the second cycle, which plans for more, over the row of the first. The
first cycle's epoch is opened after all, and its plan is computed again. -/
def recomputed : List (Move Unit PayoutEvent PayoutReply) :=
  unconfirmedOpen ++ [.env (.inputs 80 (some 100000000) none oneHolder 1500), .start ()] ++
    confirmed 11 ++ unsent ++ [.finish, .env (.chain (.land 0)), .start ()] ++ confirmed 15

end Sample

/-- An epoch whose row was overwritten, resumed by the plan it was opened with. -/
theorem pays_opened_plan_sample :
    ∃ tr s, PayoutRun Sample.env (fun w a => KeepsRows a ∧ SavesAgree Sample.env w a) tr s ∧
      s.1.chain.signed.any PayoutTx.pays = true ∧ PaysOpenedPlan s.1.chain := by
  obtain ⟨tr, s, hrun, hend⟩ := @Machine.exists_run _ _ _ _ _ _ (payoutMachine Sample.env)
    (fun _ => runPayoutsForPool Sample.env) (Sample.freshWorld 10000 Sample.oneHolder 60, none)
    (fun w a => Sample.keepsRows a && Sample.savesAgree w a)
    (fun w a => KeepsRows a ∧ SavesAgree Sample.env w a)
    (fun w a h => by
      rw [Bool.and_eq_true] at h
      exact ⟨Sample.keepsRows_of h.1, Sample.savesAgree_of h.2⟩)
    Sample.recomputed (fun _ s => s.1.chain.signed.any PayoutTx.pays)
    (by decide +kernel)
  have h : PayoutRun Sample.env (fun w a => KeepsRows a ∧ SavesAgree Sample.env w a) tr s :=
    ⟨_, Sample.freshWorld_fresh .., hrun⟩
  exact ⟨tr, s, h, hend, pays_opened_plan h⟩

/-- The first cycle's `open_epoch` lands after the second wrote its plan over the first's, and
the epoch is paid by the second's. -/
theorem pays_other_plan :
    ∃ tr s, PayoutRun Sample.env (fun _ a => KeepsRows a) tr s ∧ ¬PaysOpenedPlan s.1.chain := by
  obtain ⟨tr, s, hrun, hend⟩ := @Machine.exists_run _ _ _ _ _ _ (payoutMachine Sample.env)
    (fun _ => runPayoutsForPool Sample.env) (Sample.freshWorld 10000 Sample.oneHolder 60, none)
    (fun _ a => Sample.keepsRows a) (fun _ a => KeepsRows a)
    (fun _ _ h => Sample.keepsRows_of h) Sample.plannedOver
    (fun _ s => s.1.chain.signed.any fun tx =>
      tx.pays && decide ((s.1.chain.opens tx.payload.index).map (·.2) ≠ [tx.plan]))
        (by decide +kernel)
  refine ⟨tr, s, ⟨_, Sample.freshWorld_fresh .., hrun⟩, ?_⟩
  intro h
  obtain ⟨tx, htx, hother⟩ := List.any_eq_true.mp hend
  rw [Bool.and_eq_true, decide_eq_true_iff] at hother
  obtain ⟨e, args, -, hopens, -⟩ := h tx htx hother.1
  rw [hopens] at hother
  exact hother.2 rfl

end IceMarkets.Keeper
