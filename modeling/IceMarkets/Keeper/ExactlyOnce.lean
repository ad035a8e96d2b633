import IceMarkets.Keeper.Allocation

/-!
# IceMarkets.Keeper.ExactlyOnce

What a wallet of a plan receives.

`push_payouts` pays whatever it is sent, so a push that is signed again after the first landed,
or while it can still land, pays its wallets twice (`paid_twice`). Where no push is on its way
when an open epoch is read, only pushes that expired are tried again, and the rows are not
rounded so that they hide a payment (`SettledPushes`), a resumed cycle finds everybody who was
paid, whatever landed in between: no wallet gets more than its share, and the finalized epoch
holds the rest of it as a leaf (`exactly_once`).
-/

namespace IceMarkets.Keeper

open Distributor Sdk InFlight Async

/-- What a list of items has for a wallet. -/
def amountFor (items : List EpochPlanItem) (wallet : Pubkey) : Nat :=
  planTotal (items.filter (·.wallet = wallet))

/-- Every transaction of the epoch was signed for the plan. -/
def ForPlan (c : Chain) (index : Nat) (plan : List EpochPlanItem) : Prop :=
  ∀ tx ∈ c.signed, tx.payload.index = index → tx.plan = plan

/-- Every wallet of the plan is paid its share once: by pushes and a leaf under the root. -/
structure PaysOnce (env : KeeperEnv) (c : Chain) (index : Nat)
    (plan : List EpochPlanItem) : Prop where
  le : ∀ wallet, amountFor (c.paid index) wallet ≤ amountFor plan wallet
  eq : ∀ e, c.epochs index = some e → e.finalized = true → ∃ tx tree,
    c.closings index = [(e.merkleRoot, e.merkleTotal, tx)] ∧
      epochTree env index tx.leaves = .ok tree ∧
    treeRoot tree = e.merkleRoot ∧
    ∀ wallet, amountFor (c.paid index) wallet + amountFor tx.leaves wallet = amountFor plan wallet

/-- Runs in which pushes are settled when the cycle goes by them. -/
def Regime.settledPushes (env : KeeperEnv) : Regime env where
  allowed := SettledPushes
  kept := False
  fits := False
  once := True
  keeps := nofun
  fitting := nofun
  settled _ _ _ h := h

section Amounts

variable {xs ys : List EpochPlanItem}

theorem amountFor_le_of_subperm (h : xs.Subperm ys) (wallet : Pubkey) :
    amountFor xs wallet ≤ amountFor ys wallet :=
  planTotal_le_of_subperm (h.filter _)

theorem amountFor_perm (h : xs.Perm ys) (wallet : Pubkey) :
    amountFor xs wallet = amountFor ys wallet :=
  planTotal_perm (h.filter _)

theorem amountFor_append (wallet : Pubkey) :
    amountFor (xs ++ ys) wallet = amountFor xs wallet + amountFor ys wallet := by
  unfold amountFor
  rw [List.filter_append, planTotal_append]

/-- Items of a plan, of distinct wallets, are part of it. -/
theorem subperm_of_wallets {plan : List EpochPlanItem} (hnodup : (xs.map (·.wallet)).Nodup)
    (h : ∀ p ∈ xs, p ∈ plan) : xs.Subperm plan := List.subperm_of_subset hnodup.of_map h

end Amounts

section Runs

variable {env : KeeperEnv} {c c' : Chain} {index : Nat} {plan : List EpochPlanItem}

/-- The pushes of an epoch that landed or can land pay distinct wallets of its plan. -/
def PayableOnce (c : Chain) : Prop :=
  ∀ index plan, ForPlan c index plan → (plan.map (·.wallet)).Nodup →
    ((c.payable index).map (·.wallet)).Nodup ∧ ∀ p ∈ c.payable index, p ∈ plan

/-- Epochs are opened for whole plans. -/
def OpensWhole (c : Chain) : Prop :=
  ∀ tx ∈ c.signed, ∀ args, tx.payload = .openEpoch args → ValidPlan tx.plan args.totalAmount.toNat

/-- A root is over the leaves, and these with what was paid cover the plan. -/
structure Covers (env : KeeperEnv) (c : Chain) (tx : PayoutTx) (index : Nat) (root : Bytes32)
    (total : UInt64) :
    Prop where
  tree : ∃ tree, epochTree env index tx.leaves = .ok tree ∧ treeRoot tree = root
  total : total.toNat = planTotal tx.leaves
  leaves : ∀ p ∈ tx.leaves, p ∈ tx.plan
  covered : ∀ p ∈ tx.plan, 0 < p.amount →
    p.wallet ∈ (c.paid index).map (·.wallet) ∨ p ∈ tx.leaves

def ClosesCovered (env : KeeperEnv) (c : Chain) : Prop :=
  ∀ tx ∈ c.signed, ∀ index root total, tx.payload = .finalizeEpoch index root total →
    Covers env c tx index root total

theorem Covers.grows {tx : PayoutTx} {root : Bytes32} {total : UInt64}
    (h : Covers env c tx index root total)
    (hg : c.Grows c') : Covers env c' tx index root total where
  tree := h.tree
  total := h.total
  leaves := h.leaves
  covered := by
    intro p hp hpos
    refine (h.covered p hp hpos).imp_left ?_
    intro hw
    obtain ⟨q, hq, heq⟩ := List.mem_map.mp hw
    exact List.mem_map.mpr ⟨q, mem_paid_of_grows hg hq, heq⟩

theorem remainingOf_subset {already : List Pubkey} {p : EpochPlanItem}
    (h : p ∈ remainingOf plan already) :
    p ∈ plan := List.mem_of_mem_filter h

theorem FinalizePromise.covers {kept fits : Prop} {w : PayoutWorld} {tx : PayoutTx}
    {root : Bytes32} {total : UInt64}
    (h : FinalizePromise env kept fits w tx root total) :
    Covers env w.chain tx tx.payload.index root total := by
  obtain ⟨acc, pushed, -, hperm, hpaid⟩ := h.pushed
  refine ⟨h.tree, h.total, ?_, ?_⟩
  · intro p hp
    exact remainingOf_subset (hperm.mem_iff.mp (List.mem_append_right _ hp))
  · intro p hp hpos
    by_cases halready : p.wallet ∈ tx.already
    · exact .inl (h.already p.wallet halready)
    · have hremaining : p ∈ remainingOf tx.plan tx.already :=
        List.mem_filter.mpr ⟨hp, by simp [hpos, halready]⟩
      rcases List.mem_append.mp (hperm.mem_iff.mpr hremaining) with hpushed | hleaf
      · exact .inl (List.mem_map_of_mem (hpaid p hpushed))
      · exact .inr hleaf

/-- What was paid is what was payable. -/
theorem paid_sublist_payable : (c.paid index).Sublist (c.payable index) := landedOf_sublist_liveOf

theorem itemsOf_push {tx : PayoutTx} {items : List PayoutItem}
    (h : tx.payload = .pushPayouts index items) :
    itemsOf index tx = items.map planItem := by
  unfold itemsOf
  rw [h]
  exact if_pos rfl

/-- A push is of wallets of its plan that no push pays that landed or can land. -/
theorem SubmitPromise.payable {R : Regime env} {w : PayoutWorld} {tx : PayoutTx}
    (h : SubmitPromise R w tx) (honce : R.once) (hnodup : (tx.plan.map (·.wallet)).Nodup) :
    (itemsOf tx.payload.index tx).Sublist tx.plan ∧ ∀ p ∈ itemsOf tx.payload.index tx,
      ∀ q ∈ w.chain.payable tx.payload.index, q.wallet ≠ p.wallet := by
  cases hp : tx.payload with
  | openEpoch args => simp [itemsOf, hp]
  | finalizeEpoch i root total => simp [itemsOf, hp]
  | pushPayouts i items =>
      rw [SubmitPromise, hp] at h
      have hfresh := h.fresh honce hnodup
      rw [hp] at hfresh
      rw [← itemsOf_push hp] at hfresh
      refine ⟨?_, hfresh⟩
      change (itemsOf i tx).Sublist tx.plan
      rw [itemsOf_push hp]
      exact h.items.trans List.filter_sublist

/-- What is signed once more. -/
theorem PayableOnce.submit {R : Regime env} {w : PayoutWorld} {tx : PayoutTx}
    (h : PayableOnce w.chain) (honce : R.once) (hpre : SubmitPromise R w tx) :
    PayableOnce (w.chain.submit tx) := by
  intro index plan hplan hnodup
  have hbefore : ForPlan w.chain index plan := by
    intro tx' htx'
    refine hplan tx' ?_
    simp only [Chain.signed, Chain.submit, messages_send]
    exact List.mem_append_left _ htx'
  obtain ⟨hlive, hmem⟩ := h index plan hbefore hnodup
  have hsend : (w.chain.submit tx).payable index = w.chain.payable index ++
    itemsOf index tx := liveOf_send
  rw [hsend]
  by_cases hi : tx.payload.index = index
  · subst hi
    have hself : tx.plan = plan := by
      refine hplan tx ?_ rfl
      simp [Chain.signed, Chain.submit, messages_send]
    subst hself
    obtain ⟨hitems, hfresh⟩ := hpre.payable honce hnodup
    refine ⟨?_, ?_⟩
    · rw [List.map_append]
      refine List.nodup_append.mpr ⟨hlive, hnodup.sublist (hitems.map _), ?_⟩
      intro wallet hwallet wallet' hwallet' heq
      obtain ⟨q, hq, rfl⟩ := List.mem_map.mp hwallet
      obtain ⟨p, hp, rfl⟩ := List.mem_map.mp hwallet'
      exact hfresh p hp q hq heq
    · intro p hp
      rcases List.mem_append.mp hp with hp | hp
      · exact hmem p hp
      · exact hitems.subset hp
  · rw [itemsOf_of_ne hi, List.append_nil]
    exact ⟨hlive, hmem⟩

/-- Nothing more becomes payable where nothing is signed. -/
theorem PayableOnce.of_sublist (h : PayableOnce c) (hsigned : c'.signed = c.signed)
    (hsub : ∀ index, (c'.payable index).Sublist (c.payable index)) : PayableOnce c' := by
  intro index plan hplan hnodup
  have hbefore : ForPlan c index plan := by
    intro tx htx
    exact hplan tx (hsigned ▸ htx)
  obtain ⟨hlive, hmem⟩ := h index plan hbefore hnodup
  exact ⟨hlive.sublist ((hsub index).map _), fun p hp => hmem p ((hsub index).subset hp)⟩

theorem ClosesCovered.grows (h : ClosesCovered env c) (hg : c.Grows c')
    (hsigned : c'.signed = c.signed) :
    ClosesCovered env c' := by
  intro tx htx index root total hp
  exact (h tx (hsigned ▸ htx) index root total hp).grows hg

theorem settledPushes_kept : KeptInRuns (Regime.settledPushes env) fun w =>
    PayableOnce w.chain ∧ OpensWhole w.chain ∧ ClosesCovered env w.chain where
  submit := by
    intro w tx _ hw _ hpre
    refine ⟨hw.1.submit trivial hpre, ?_, ?_⟩
    · intro tx' htx' args hp
      rcases mem_signed_submit htx' with htx' | rfl
      · exact hw.2.1 tx' htx' args hp
      · rw [SubmitPromise, hp] at hpre
        exact hpre.valid
    · intro tx' htx' index root total hp
      refine Covers.grows ?_ (.submit w.chain tx)
      rcases mem_signed_submit htx' with htx' | rfl
      · exact hw.2.2 tx' htx' index root total hp
      · rw [SubmitPromise, hp] at hpre
        have hcovers := hpre.covers
        rwa [hp] at hcovers
  land w sig s e _ hw hs hp hrecord := by
    have hlater : Later w.chain.txs (settle w.chain.txs sig .landed) := settle_later hs hp
    refine ⟨hw.1.of_sublist signed_settle fun index => hlater.live_sublist, ?_, ?_⟩
    · intro tx htx
      rw [signed_settle] at htx
      exact hw.2.1 tx htx
    · exact hw.2.2.grows (.land hs hp hrecord) signed_settle
  expire w sig s hw hs hp := by
    have hlater : Later w.chain.txs (settle w.chain.txs sig .expired) := settle_later hs hp
    have hsigned : ({ w.chain with txs := settle w.chain.txs sig .expired } : Chain).signed =
      w.chain.signed :=
      messages_settle
    refine ⟨hw.1.of_sublist hsigned fun index => hlater.live_sublist, ?_, ?_⟩
    · intro tx htx
      rw [hsigned] at htx
      exact hw.2.1 tx htx
    · intro tx htx index root total hpayload
      rw [hsigned] at htx
      have hcovers := hw.2.2 tx htx index root total hpayload
      refine ⟨hcovers.tree, hcovers.total, hcovers.leaves, ?_⟩
      simp only [Chain.paid, landedOf_expire hs hp]
      exact hcovers.covered
  claim w index e claimed hw he := ⟨hw.1, hw.2.1, hw.2.2.grows (.claim he) rfl⟩
  save _ _ _ hw _ _ := hw
  same w w' hw hepochs htxs _ := by
    have hsigned : w'.chain.signed = w.chain.signed := by simp only [Chain.signed, htxs]
    refine ⟨hw.1.of_sublist hsigned
      fun index => by simp only [Chain.payable, htxs, List.Sublist.refl], ?_, ?_⟩
    · intro tx htx
      rw [hsigned] at htx
      exact hw.2.1 tx htx
    · exact hw.2.2.grows (.of_eq hepochs htxs) hsigned

/-- A landed transaction was signed. -/
theorem mem_signed_of_landed {β : Type} {f : PayoutTx → List β} {b : β} (h : b ∈ landedOf f c.txs) :
    ∃ tx ∈ c.signed, b ∈ f tx := by
  obtain ⟨s, hs, -, hb⟩ := mem_landedOf.mp h
  exact ⟨s.message, List.mem_map_of_mem hs, hb⟩

/-- The plan an epoch was opened for is whole. -/
theorem validPlan_of_forPlan (hc : ChainInv c) (hopens : OpensWhole c)
    (hplan : ForPlan c index plan) {e : Epoch}
    (he : c.epochs index = some e) : ValidPlan plan e.totalAmount.toNat := by
  obtain ⟨args, plan', hopen, -, -, htotal⟩ := (hc.facts index e he).opened
  have hmem : (args, plan') ∈ landedOf (opensOf index) c.txs := by
    change (args, plan') ∈ c.opens index
    rw [hopen]
    exact List.mem_singleton_self _
  obtain ⟨tx, htx, hx⟩ := mem_signed_of_landed hmem
  obtain ⟨hp, hindex, -⟩ := mem_opensOf.mp hx
  have hi : tx.payload.index = index := by
    rw [hp]
    exact hindex
  rw [htotal, ← hplan tx htx hi]
  exact hopens tx htx args hp

/-- The pushes and leaves of a closed epoch are its plan. -/
theorem perm_of_closed (hc : ChainInv c) (hpayable : PayableOnce c) (hopens : OpensWhole c)
    (hcloses : ClosesCovered env c) (hplan : ForPlan c index plan) {e : Epoch}
    (he : c.epochs index = some e)
    (hfin : e.finalized = true) :
    ∃ tx tree, c.closings index = [(e.merkleRoot, e.merkleTotal, tx)] ∧
      epochTree env index tx.leaves = .ok tree ∧ treeRoot tree = e.merkleRoot ∧
      (c.paid index ++ tx.leaves).Perm plan := by
  have hvalid := validPlan_of_forPlan hc hopens hplan he
  have hfacts := hc.facts index e he
  obtain ⟨tx, hclosing, hle⟩ := hfacts.closed hfin
  have hmem : (e.merkleRoot, e.merkleTotal, tx) ∈ landedOf (closingsOf index) c.txs := by
    change _ ∈ c.closings index
    rw [hclosing]
    exact List.mem_singleton_self _
  obtain ⟨tx', htx, hx⟩ := mem_signed_of_landed hmem
  obtain ⟨hp, rfl⟩ := mem_closingsOf hx
  have hcovers := hcloses tx htx index _ _ hp
  obtain ⟨tree, htree, hroot⟩ := hcovers.tree
  have hself : tx.plan = plan := hplan tx htx (by rw [hp]; rfl)
  obtain ⟨hlive, hin⟩ := hpayable index plan hplan hvalid.nodup
  have hpaid : ∀ p ∈ c.paid index, p ∈ plan := fun p hp => hin p (paid_sublist_payable.subset hp)
  have hleaves : ∀ p ∈ tx.leaves, p ∈ plan := fun p hp => hself ▸ hcovers.leaves p hp
  -- every item of the plan is among the pushes and leaves, and these come to no more
  have hsub : plan.Subperm (c.paid index ++ tx.leaves) := by
    refine List.subperm_of_subset hvalid.nodup.of_map ?_
    intro p hp
    rcases hcovers.covered p (hself ▸ hp) (hvalid.pos p hp) with hw | hleaf
    · obtain ⟨q, hq, heq⟩ := List.mem_map.mp hw
      obtain rfl := List.inj_on_of_nodup_map hvalid.nodup (hpaid q hq) hp heq
      exact List.mem_append_left _ hq
    · exact List.mem_append_right _ hleaf
  have hpos : ∀ p ∈ c.paid index ++ tx.leaves, 0 < p.amount := by
    intro p hp
    rcases List.mem_append.mp hp with hp | hp
    · exact hvalid.pos p (hpaid p hp)
    · exact hvalid.pos p (hleaves p hp)
  have htotal : planTotal plan = planTotal (c.paid index ++ tx.leaves) := by
    have hge := planTotal_le_of_subperm hsub
    rw [planTotal_append] at hge ⊢
    rw [hvalid.total] at hge ⊢
    have hpushed := hfacts.pushed
    have hmerkle : e.merkleTotal.toNat = planTotal tx.leaves := hcovers.total
    omega
  exact ⟨tx, tree, hclosing, htree, hroot, (perm_of_planTotal_eq hsub hpos htotal).symm⟩

/-- Rows hide nobody where less than 1.01e18 was paid each time. -/
theorem PayoutInv.rowsTell {kept : Prop} {w : PayoutWorld} (h : PayoutInv kept w)
    (hpaid : ∀ p ∈ w.chain.paid index, 0 < p.amount ∧ p.amount < 101 * 10 ^ 16) :
    RowsTell (w.db.pushedPayouts index) (w.chain.paid index) := by
  obtain ⟨rows, hrows, hsub⟩ := h.exists_storedRows index
  have hexact : storedRows rows = rows.map (·.1) := List.map_congr_left fun x hx =>
    x.2.row_eq_of_lt (hpaid x.1 (hsub.subset (List.mem_map_of_mem hx))).2
  refine rowsTell_of_exact ?_ (h.distinct index) fun p hp => (hpaid p hp).1
  rw [← hrows, hexact]
  exact fun r hr => hsub.subset hr

/-- Where pushes are settled when the cycle goes by them, every wallet of an epoch's plan is paid
its share once. -/
theorem exactly_once {tr : List (Act PayoutOp Unit PayoutEvent)} {s : PayoutConfig}
    (h : PayoutRun env SettledPushes tr s) (hplan : ForPlan s.1.chain index plan) :
    PaysOnce env s.1.chain index plan := by
  have hempty : ∀ w : PayoutWorld, w.Fresh →
      PayableOnce w.chain ∧ OpensWhole w.chain ∧ ClosesCovered env w.chain := by
    intro w hw
    refine ⟨?_, ?_, ?_⟩
    · intro index plan _ _
      have hnil : w.chain.payable index = [] := by
        rw [Chain.payable, hw.txs]
        rfl
      simp [hnil]
    · intro tx htx
      rw [Chain.signed, hw.txs] at htx
      cases htx
    · intro tx htx
      rw [Chain.signed, hw.txs] at htx
      cases htx
  obtain ⟨hinv, hpayable, hopens, hcloses⟩ :=
    PayoutRun.invariant (R := Regime.settledPushes env) h settledPushes_kept hempty
  refine ⟨?_, ?_⟩
  · intro wallet
    cases he : s.1.chain.epochs index with
    | none =>
        rw [(hinv.chain.untouched index he).paid]
        exact Nat.zero_le _
    | some e =>
        have hvalid := validPlan_of_forPlan hinv.chain hopens hplan he
        obtain ⟨hlive, hin⟩ := hpayable index plan hplan hvalid.nodup
        refine amountFor_le_of_subperm ?_ wallet
        exact subperm_of_wallets (hlive.sublist (paid_sublist_payable.map _)) fun p hp =>
          hin p (paid_sublist_payable.subset hp)
  · intro e he hfin
    obtain ⟨tx, tree, hclosing, htree, hroot, hperm⟩ :=
      perm_of_closed hinv.chain hpayable hopens hcloses hplan he hfin
    refine ⟨tx, tree, hclosing, htree, hroot, ?_⟩
    intro wallet
    rw [← amountFor_append]
    exact amountFor_perm hperm wallet

end Runs

namespace Sample

open Distributor.Sample (walletA walletB)

/-- Two holders, of whom `walletA` has a token account. -/
def holders (a b : Int) : List (BalanceEvent Pubkey) :=
  [{ wallet := walletA, delta := a, ts := 0 }, { wallet := walletB, delta := b, ts := 0 }]

/-- The plan of an epoch of 60. -/
def planOfTwo (a b : Nat) : List EpochPlanItem :=
  [{ wallet := walletA, amount := a }, { wallet := walletB, amount := b }]

/-- The cycle that opens an epoch, up to its first push. -/
def openedEpochScript : List (Move Unit PayoutEvent PayoutReply) := .start () :: confirmed 16

/-- A push that was not confirmed is signed again, and both land. -/
def bothLand : List (Move Unit PayoutEvent PayoutReply) :=
  openedEpochScript ++ [.reply .lost, .reply .done, .env (.chain (.land 1))]

/-- A push that was not confirmed before the keeper crashed lands; its wallet is found by the
events. -/
def landedAfterCrash : List (Move Unit PayoutEvent PayoutReply) :=
  openedEpochScript ++ [.reply .lost, .crash, .env (.chain (.land 1)), .start ()] ++ confirmed 7 ++
    [.reply (.found [{ wallet := walletA, amount := 40 }])] ++ confirmed 5

/-- Whether pushes are settled. -/
def settledPushes (w : PayoutWorld) : Act PayoutOp Unit PayoutEvent → Bool
  | .call (.fetchEpoch index) =>
      w.chain.txs.all fun s => decide (s.status = .pending → itemsOf index s.message = [])
  | .call (.submit tx) => w.chain.txs.all fun s => decide (s.message = tx → s.status = .expired)
  | .call (.getPushedPayouts index) =>
      decide (∀ r ∈ w.db.pushedPayouts index, r ∈ w.chain.paid index) &&
        decide ((w.db.pushedPayouts index).map (·.wallet)).Nodup &&
        decide (∀ p ∈ w.chain.paid index, 0 < p.amount)
  | _ => true

theorem settledPushes_of {w : PayoutWorld} {a : Act PayoutOp Unit PayoutEvent}
    (h : settledPushes w a = true) :
    SettledPushes w a where
  read := by
    intro index hx e _ _ s hs
    obtain rfl := hx
    exact of_decide_eq_true (List.all_eq_true.mp h s hs)
  retried := by
    intro tx hx _ s hs
    obtain rfl := hx
    exact of_decide_eq_true (List.all_eq_true.mp h s hs)
  rows := by
    intro index hx
    obtain rfl := hx
    simp only [settledPushes, Bool.and_eq_true, decide_eq_true_iff] at h
    exact rowsTell_of_exact h.1.1 h.1.2 h.2

/-- Whether every transaction of epoch 0 was signed for the plan. -/
def forPlan (c : Chain) (plan : List EpochPlanItem) : Bool :=
  c.signed.all fun tx => decide (tx.plan = plan)

theorem forPlan_of {c : Chain} {plan : List EpochPlanItem} (h : forPlan c plan = true) :
    ForPlan c 0 plan :=
  fun tx htx _ => of_decide_eq_true (List.all_eq_true.mp h tx htx)

end Sample

/-- One wallet's push lands after a crash, the other's leaf is under the root. -/
theorem exactly_once_sample :
    ∃ tr s, PayoutRun Sample.env SettledPushes tr s ∧
      (s.1.chain.epochs 0).map (·.merkleTotal) = some 20 ∧
      PaysOnce Sample.env s.1.chain 0 (Sample.planOfTwo 40 20) := by
  obtain ⟨tr, s, hrun, hend⟩ := @Machine.exists_run _ _ _ _ _ _ (payoutMachine Sample.env)
    (fun _ => runPayoutsForPool Sample.env)
    (Sample.freshWorld 8000 (Sample.holders 4000 2000) 60, none)
    Sample.settledPushes SettledPushes (fun _ _ h => Sample.settledPushes_of h)
    Sample.landedAfterCrash
    (fun _ s => decide ((s.1.chain.epochs 0).map (·.merkleTotal) = some 20) &&
      Sample.forPlan s.1.chain (Sample.planOfTwo 40 20)) (by decide +kernel)
  rw [Bool.and_eq_true, decide_eq_true_iff] at hend
  have h : PayoutRun Sample.env SettledPushes tr s := ⟨_, Sample.freshWorld_fresh .., hrun⟩
  exact ⟨tr, s, h, hend.1, exactly_once h (Sample.forPlan_of hend.2)⟩

/-- The wallet of a push that was signed again is paid twice. -/
theorem paid_twice :
    ∃ tr s, PayoutRun Sample.env (fun _ a => KeepsRows a) tr s ∧
      ForPlan s.1.chain 0 (Sample.planOfTwo 20 40) ∧
      ¬PaysOnce Sample.env s.1.chain 0 (Sample.planOfTwo 20 40) := by
  obtain ⟨tr, s, hrun, hend⟩ := @Machine.exists_run _ _ _ _ _ _ (payoutMachine Sample.env)
    (fun _ => runPayoutsForPool Sample.env)
    (Sample.freshWorld 8000 (Sample.holders 2000 4000) 60, none)
    (fun _ a => Sample.keepsRows a) (fun _ a => KeepsRows a)
    (fun _ _ h => Sample.keepsRows_of h) Sample.bothLand
    (fun _ s => Sample.forPlan s.1.chain (Sample.planOfTwo 20 40) &&
      decide (amountFor (s.1.chain.paid 0) Distributor.Sample.walletA = 40)) (by decide +kernel)
  rw [Bool.and_eq_true, decide_eq_true_iff] at hend
  refine ⟨tr, s, ⟨_, Sample.freshWorld_fresh .., hrun⟩, Sample.forPlan_of hend.1, ?_⟩
  intro h
  have hle := h.le Distributor.Sample.walletA
  have hplan : amountFor (Sample.planOfTwo 20 40) Distributor.Sample.walletA =
    20 := by decide +kernel
  omega

end IceMarkets.Keeper
