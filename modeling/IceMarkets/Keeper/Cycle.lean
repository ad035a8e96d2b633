import IceMarkets.Keeper.Promises

/-!
# IceMarkets.Keeper.Cycle

The payout cycle keeps its promises (`runPayoutsForPool_safe`), function by function.

A function's specification takes any fact that stays while the world rests (`Staying`) and
gives it back, with what the function found; so the facts a later call needs pass through
the calls between. What the keeper read of the chain stays because the chain only grows, and
what it found of the pushes because none is sent meanwhile.
-/

namespace IceMarkets.Keeper

open Distributor Sdk InFlight InsertionMap Async

/-! ### Facts that stay -/

/-- A fact that stays while the world rests. -/
def Staying (kept : Prop) (P : PayoutWorld → Prop) : Prop := ∀ ⦃w w'⦄, w.Rests kept w' → P w → P w'

/-- A fact that lasts while no plan is saved, whatever is sent. -/
def Lasting (kept : Prop) (P : PayoutWorld → Prop) : Prop := ∀ ⦃w w'⦄, w.Grows kept w' → P w → P w'

section Facts

variable {kept : Prop} {P P' : PayoutWorld → Prop}

theorem Lasting.staying (hP : Lasting kept P) : Staying kept P := fun _ _ h hw => hP h.toGrows hw

theorem Staying.and (hP : Staying kept P) (hP' : Staying kept P') :
    Staying kept fun w => P w ∧ P' w :=
  fun _ _ hg h => ⟨hP hg h.1, hP' hg h.2⟩

theorem Staying.imp {c : Prop} (hP : Staying kept P) : Staying kept fun w => c → P w :=
  fun _ _ hg h hc => hP hg (h hc)

theorem staying_true : Staying kept fun _ => True := fun _ _ _ h => h

theorem Lasting.and (hP : Lasting kept P) (hP' : Lasting kept P') :
    Lasting kept fun w => P w ∧ P' w :=
  fun _ _ hg h => ⟨hP hg h.1, hP' hg h.2⟩

theorem lasting_seen (kept : Prop) (acc : Epoch) : Lasting kept (Seen · acc) := by
  intro w w' hg h
  obtain ⟨e, he, hev⟩ := h
  obtain ⟨e', he', hev'⟩ := hg.chain.epochs _ e he
  exact ⟨e', he', hev.trans hev'⟩

theorem exists_epoch_of_seen {w : PayoutWorld} {acc : Epoch} (h : Seen w acc) :
    ∃ e, w.chain.epochs acc.index.toNat = some e := by
  obtain ⟨e, he, -⟩ := h
  exact ⟨e, he⟩

theorem seen_of_epoch {w : PayoutWorld} {index : Nat} {acc : Epoch}
    (h : w.chain.epochs index = some acc)
    (hi : acc.index.toNat = index) : Seen w acc := ⟨acc, by rw [hi, h], .refl acc⟩

theorem lasting_planOpened (acc : Epoch) (plan : List EpochPlanItem) :
    Lasting kept fun w => kept → PlanOpened w acc plan := by
  intro w w' hg h hk
  refine (h hk).imp ?_ ?_
  · intro hstored
    rw [hg.stored hk]
    exact hstored
  · intro hopen
    obtain ⟨args, hargs⟩ := hopen
    exact ⟨args, (hg.chain.opens _).subset hargs⟩

/-- Items that were paid. -/
def AllPaid (w : PayoutWorld) (index : Nat) (items : List EpochPlanItem) : Prop :=
  ∀ p ∈ items, p ∈ w.chain.paid index

theorem lasting_allPaid (kept : Prop) (index : Nat) (items : List EpochPlanItem) :
    Lasting kept (AllPaid · index items) :=
  fun _ _ hg h p hp => mem_paid_of_grows hg.chain (h p hp)

/-- Wallets that were paid. -/
def WalletsPaid (w : PayoutWorld) (index : Nat) (wallets : List Pubkey) : Prop :=
  ∀ wallet ∈ wallets, wallet ∈ (w.chain.paid index).map (·.wallet)

theorem lasting_walletsPaid (index : Nat) (wallets : List Pubkey) :
    Lasting kept (WalletsPaid · index wallets) := by
  intro w w' hg h wallet hw
  obtain ⟨p, hp, heq⟩ := List.mem_map.mp (h wallet hw)
  exact List.mem_map.mpr ⟨p, mem_paid_of_grows hg.chain hp, heq⟩

theorem AllPaid.wallets {w : PayoutWorld} {index : Nat} {items : List EpochPlanItem}
    (h : AllPaid w index items) : WalletsPaid w index (items.map (·.wallet)) := by
  intro wallet hw
  obtain ⟨p, hp, rfl⟩ := List.mem_map.mp hw
  exact List.mem_map_of_mem (h p hp)

theorem planTotal_le_of_subperm {xs ys : List EpochPlanItem} (h : xs.Subperm ys) :
    planTotal xs ≤ planTotal ys := by
  obtain ⟨l, hl, hsub⟩ := h
  rw [← planTotal_perm hl]
  exact (hsub.map _).sum_le_sum fun _ _ => Nat.zero_le _

/-! #### What was pushed -/

/-- No push of the account's epoch is on its way, and those that landed come to what the account
says. -/
structure SettledOn (w : PayoutWorld) (acc : Epoch) : Prop where
  settled : ∀ s ∈ w.chain.txs, s.status = .pending → itemsOf acc.index.toNat s.message = []
  paid : planTotal (w.chain.paid acc.index.toNat) = acc.pushedAmount.toNat

/-- Where no push is on its way, nothing more is paid while the world rests. -/
theorem SettledOn.paid_eq {w w' : PayoutWorld} {acc : Epoch} (h : SettledOn w acc)
    (hr : w.Rests kept w') : w'.chain.paid acc.index.toNat = w.chain.paid acc.index.toNat :=
  hr.later.landed_eq h.settled

theorem staying_settledOn (acc : Epoch) : Staying kept (SettledOn · acc) := by
  intro w w' hr h
  refine ⟨?_, ?_⟩
  · intro s' hs' hpending
    obtain ⟨s, hs, hle⟩ := hr.later.origin hs'
    rw [hle.message]
    refine h.settled s hs ?_
    by_contra hne
    rw [hle.settled hne] at hpending
    exact hne hpending
  · rw [h.paid_eq hr]
    exact h.paid

/-- Pushes of an epoch that landed or can land, but those of one transaction, pay these wallets
alone. -/
def AccountedBut (w : PayoutWorld) (index : Nat) (sent : PayoutTx → Prop)
    (wallets : List Pubkey) : Prop :=
  ∀ s ∈ w.chain.txs, ¬ sent s.message → s.status ≠ .expired →
    ∀ p ∈ itemsOf index s.message, p.wallet ∈ wallets

theorem staying_accountedBut (index : Nat) (sent : PayoutTx → Prop) (wallets : List Pubkey) :
    Staying kept (AccountedBut · index sent wallets) := by
  intro w w' hr h s' hs' hother hlive p hp
  obtain ⟨s, hs, hle⟩ := hr.later.origin hs'
  rw [hle.message] at hother hp
  exact h s hs hother (hle.status_ne hlive (by decide)) p hp

/-- Pushes of an epoch that landed or can land pay these wallets alone. -/
def Accounted (w : PayoutWorld) (index : Nat) (wallets : List Pubkey) : Prop :=
  AccountedBut w index (fun _ => False) wallets

theorem staying_accounted (index : Nat) (wallets : List Pubkey) :
    Staying kept (Accounted · index wallets) := staying_accountedBut index _ wallets

/-- Settled pushes pay whom they were found to pay. -/
theorem SettledOn.accounted {w : PayoutWorld} {acc : Epoch} {wallets : List Pubkey}
    (h : SettledOn w acc)
    (hall : ∀ q ∈ w.chain.paid acc.index.toNat, q.wallet ∈ wallets) :
    Accounted w acc.index.toNat wallets := by
  intro s hs _ hlive p hp
  refine hall p (mem_landedOf.mpr ⟨s, hs, ?_, hp⟩)
  cases hstatus : s.status with
  | landed => rfl
  | expired => exact absurd hstatus hlive
  | pending =>
      rw [h.settled s hs hstatus] at hp
      cases hp

/-! #### What fills an epoch -/

/-- An epoch is closed. -/
def Done (w : PayoutWorld) (index : Nat) : Prop :=
  ∃ e, w.chain.epochs index = some e ∧ e.finalized = true

theorem lasting_done (index : Nat) : Lasting kept (Done · index) := by
  intro w w' hg h
  obtain ⟨e, he, hfin⟩ := h
  obtain ⟨e', he', hev⟩ := hg.chain.epochs index e he
  exact ⟨e', he', hev.finalized hfin⟩

/-- A plan that fills its epoch goes on to. -/
theorem staying_fits (index total : Nat) (plan : List EpochPlanItem) :
    Staying kept fun w => Done w index ∨ Fits w.chain index total plan := by
  intro w w' hr h
  refine h.imp (fun hdone => lasting_done index hr.toGrows hdone) ?_
  intro hfits
  refine ⟨hfits.nodup, hfits.total, ?_⟩
  intro q hq
  exact hfits.pushed q (hr.later.live_sublist.subset hq)

/-- A plan fills an amount, and gives nobody found pushed more than was paid. -/
structure FillsOn (w : PayoutWorld) (index total : Nat) (plan : List EpochPlanItem)
    (already : List Pubkey) : Prop where
  nodup : (plan.map (·.wallet)).Nodup
  total : total ≤ planTotal plan
  pushed : ∀ p ∈ plan, p.wallet ∈ already →
    ∃ q ∈ w.chain.paid index, q.wallet = p.wallet ∧ p.amount ≤ q.amount

theorem Fits.fillsOn {w : PayoutWorld} {index total : Nat} {plan : List EpochPlanItem}
    {already : List Pubkey} (h : Fits w.chain index total plan)
    (hpaid : WalletsPaid w index already) : FillsOn w index total plan already := by
  refine ⟨h.nodup, h.total, ?_⟩
  intro p hp hin
  obtain ⟨q, hq, heq⟩ := List.mem_map.mp (hpaid p.wallet hin)
  exact ⟨q, hq, heq, h.pushed q (landedOf_sublist_liveOf.subset hq) p hp heq.symm⟩

/-- Payments to the wallets of some items, of no less each. -/
theorem exists_payments {index : Nat} {w : PayoutWorld} {items : List EpochPlanItem}
    (h : ∀ p ∈ items, ∃ q ∈ w.chain.paid index, q.wallet = p.wallet ∧ p.amount ≤ q.amount) :
    ∃ payments : List EpochPlanItem, payments.map (·.wallet) = items.map (·.wallet) ∧
      AllPaid w index payments ∧ planTotal items ≤ planTotal payments := by
  induction items with
  | nil => exact ⟨[], rfl, nofun, le_rfl⟩
  | cons p items ih =>
      obtain ⟨q, hq, hwallet, hle⟩ := h p List.mem_cons_self
      obtain ⟨payments, hwallets, hpaid, htotal⟩ := ih fun p hp => h p (List.mem_cons_of_mem _ hp)
      refine ⟨q :: payments, by simp [hwallet, hwallets], ?_, ?_⟩
      · intro p hp
        rcases List.mem_cons.mp hp with rfl | hp
        · exact hq
        · exact hpaid p hp
      · rw [planTotal_cons, planTotal_cons]
        omega

/-- Dropping items of nothing drops nothing of the amount. -/
theorem planTotal_remainingOf (plan : List EpochPlanItem) (already : List Pubkey) :
    planTotal (remainingOf plan already) = planTotal (plan.filter (·.wallet ∉ already)) := by
  unfold remainingOf
  induction plan with
  | nil => rfl
  | cons p plan ih =>
      by_cases hin : p.wallet ∈ already
      · simp [hin] at ih ⊢
        exact ih
      · by_cases hpos : 0 < p.amount
        · simp [hin, hpos] at ih ⊢
          exact ih
        · have hzero : p.amount = 0 := by omega
          simp [hin, hzero] at ih ⊢
          exact ih

/-- What was paid, and the leaves, come to the amount. -/
theorem FillsOn.total_le {w : PayoutWorld} {index total : Nat}
    {plan pushed leaves : List EpochPlanItem} {already : List Pubkey}
    (h : FillsOn w index total plan already)
    (hperm : (pushed ++ leaves).Perm (remainingOf plan already))
    (hpaid : AllPaid w index pushed) :
    total ≤ planTotal (w.chain.paid index) + planTotal leaves := by
  obtain ⟨payments, hwallets, hpayments, hle⟩ :=
    exists_payments fun p (hp : p ∈ plan.filter (·.wallet ∈ already)) =>
      h.pushed p (List.mem_of_mem_filter hp) (of_decide_eq_true (List.mem_filter.mp hp).2)
  -- the payments found and those made are of distinct wallets
  have hremaining : ((remainingOf plan already).map (·.wallet)).Nodup :=
    h.nodup.sublist (List.filter_sublist.map _)
  have hpushed : ∀ p ∈ pushed, p.wallet ∉ already := by
    intro p hp
    have hmem := hperm.mem_iff.mp (List.mem_append_left leaves hp)
    exact (of_decide_eq_true (List.mem_filter.mp hmem).2).2
  have hnodup : ((payments ++ pushed).map (·.wallet)).Nodup := by
    rw [List.map_append, hwallets]
    refine (h.nodup.sublist (List.filter_sublist.map _)).append ?_ ?_
    · have hall := (hperm.map (·.wallet)).nodup_iff.mpr hremaining
      rw [List.map_append] at hall
      exact hall.of_append_left
    · intro wallet hold hnew
      obtain ⟨p, hp, rfl⟩ := List.mem_map.mp hold
      obtain ⟨q, hq, heq⟩ := List.mem_map.mp hnew
      refine hpushed q hq ?_
      rw [heq]
      exact of_decide_eq_true (List.mem_filter.mp hp).2
  have hsub : (payments ++ pushed).Subperm (w.chain.paid index) := by
    refine List.subperm_of_subset hnodup.of_map ?_
    intro p hp
    rcases List.mem_append.mp hp with hp | hp
    · exact hpayments p hp
    · exact hpaid p hp
  have hpaidTotal := planTotal_le_of_subperm hsub
  have hsplit := planTotal_perm
    (List.filter_append_perm (fun p : EpochPlanItem => decide (p.wallet ∈ already)) plan)
  have hleft := planTotal_perm hperm
  have htotal := h.total
  rw [planTotal_remainingOf] at hleft
  simp only [planTotal_append, ← decide_not] at hpaidTotal hsplit hleft
  omega

end Facts

/-! ### Calls -/

/-- A specification of a part of the cycle. -/
abbrev Spec {α : Type} {env : KeeperEnv} (R : Regime env) (P : PayoutWorld → Prop) (p : Cycle α)
    (Q : α → PayoutWorld → Prop) (E : PayoutWorld → Prop) : Prop :=
      (payoutDiscipline R).Triple P p Q E

section Calls

variable {env : KeeperEnv} {R : Regime env} {P : PayoutWorld → Prop}

/-- What stays, stays while others act; and so does what the keeper read. -/
theorem Staying.stable (hP : Staying R.kept P) (m : PlanReads → Prop) :
    (payoutDiscipline R).Stable fun w => P w ∧ m w.reads := by
  intro w ev w' hI h hok henv
  obtain ⟨-, hrests, hreads⟩ := payoutEvent_spec henv hI fun hk => R.ne_progress hk hok
  exact ⟨hP hrests h.1, hreads ▸ h.2⟩

theorem spec_call {α : Type} {o : PayoutOp} {k : Option o.Answer → Cycle α}
    {Q : α → PayoutWorld → Prop}
    {E : PayoutWorld → Prop} (M : Option o.Answer → PayoutWorld → Prop) (hP : Staying R.kept P)
    (hpre : ∀ w, PayoutInv R.kept w → R.allowed w (.call o) → P w → Promised R w o)
    (hexec : ∀ w r reply w', PayoutInv R.kept w → R.allowed w (.call o) → P w →
      respond env w o reply = some (r, w') → M r w')
    (hk : ∀ r, Spec R (M r) (k r) Q E) : Spec R P (.call o k) Q E := by
  refine Discipline.Triple.pre (S := fun w => P w ∧ True) ?_ fun w _ hw => ⟨hw, trivial⟩
  refine Discipline.Triple.call M (hP.stable fun _ => True) ?_ ?_ hk
  · intro w hI hok hw
    exact hpre w hI hok hw.1
  · intro w r w' hI hok hw h
    obtain ⟨reply, h⟩ := h
    exact hexec w r reply w' hI hok hw.1 h

/-- A quiet call. -/
theorem spec_await {o : PayoutOp} {Q : o.Answer → PayoutWorld → Prop} (ho : o.quiet = true)
    (hP : Staying R.kept P)
    (hpre : ∀ w, PayoutInv R.kept w → P w → Promised R w o)
    (hQ : ∀ w a reply w', PayoutInv R.kept w → R.allowed w (.call o) → P w → P w' →
      respond env w o reply = some (some a, w') → Q a w') : Spec R P (await o) Q P := by
  refine spec_call (fun r w => r.elim (P w) (Q · w)) hP (fun w hI _ => hpre w hI) ?_ ?_
  · intro w r reply w' hI hok hw h
    have hw' := hP (rests_of_effect hI (effect_of_respond h) ho) hw
    cases r with
    | some a => exact hQ w a reply w' hI hok hw hw' h
    | none => exact hw'
  · intro r
    cases r with
    | some a => exact Discipline.Triple.ret fun _ _ hw => hw
    | none => exact Discipline.Triple.fail fun _ _ hw => hw

/-- A read answers of the world it finds. -/
theorem spec_read {o : PayoutOp} {Q : o.Answer → PayoutWorld → Prop} {f : PayoutWorld → o.Answer}
    (hread : ∀ w reply, respond env w o reply = answerRead w (f w) reply) (ho : o.quiet = true)
    (hP : Staying R.kept P) (hpre : ∀ w, Promised R w o)
    (hQ : ∀ w, PayoutInv R.kept w → R.allowed w (.call o) → P w → Q (f w) w) :
    Spec R P (await o) Q P := by
  refine spec_await ho hP (fun w _ _ => hpre w) ?_
  intro w a reply w' hI hok hw _ h
  rw [hread] at h
  obtain ⟨rfl, h | h⟩ := answerRead_eq h
  · cases h
    exact hQ w' hI hok hw
  · cases h

/-- A read of what a plan is made of, kept with what was read before. -/
theorem spec_noted (o : PayoutOp) (m : PlanReads → Prop) (m' : o.Answer → PlanReads → Prop)
    (f : PayoutWorld → o.Answer) (note : PayoutWorld → PlanReads)
    (hread : ∀ w reply, respond env w o reply = answerNoted w (note w) (f w) reply)
    (ho : o.quiet = true) (hP : Staying R.kept P) (hpre : ∀ w, Promised R w o)
    (hm : ∀ w, m w.reads → m' (f w) (note w)) :
    Spec R (fun w => P w ∧ m w.reads) (await o) (fun a w => P w ∧ m' a w.reads) P := by
  refine Discipline.Triple.await (hP.stable m) (fun w _ _ _ => hpre w) ?_ ?_
  · intro w a w' hI _ hw h
    obtain ⟨reply, h⟩ := h
    have hw' := hP (rests_of_effect hI (effect_of_respond h) ho) hw.1
    have h : answerNoted w (note w) (f w) reply = some (some a, w') := (hread w reply).symm.trans h
    obtain ⟨hsome, rfl⟩ | ⟨hnone, -⟩ := answerNoted_eq h
    · cases hsome
      exact ⟨hw', hm w hw.2⟩
    · cases hnone
  · intro w w' hI _ hw h
    obtain ⟨reply, h⟩ := h
    exact hP (rests_of_effect hI (effect_of_respond h) ho) hw.1

/-- A write that is promised. -/
theorem spec_write {o : PayoutOp} (ho : o.quiet = true) (hP : Staying R.kept P)
    (hpre : ∀ w, PayoutInv R.kept w → P w → Promised R w o) :
    Spec R P (await o) (fun _ => P) P :=
  spec_await ho hP hpre fun _ _ _ _ _ _ _ hw' _ => hw'

theorem spec_ret {α : Type} {a : α} {Q : α → PayoutWorld → Prop} {E : PayoutWorld → Prop}
    (h : ∀ w, PayoutInv R.kept w → P w → Q a w) : Spec R P (.ret a) Q E :=
      Discipline.Triple.ret h

theorem spec_fail {α : Type} {Q : α → PayoutWorld → Prop} : Spec R P (.fail : Cycle α) Q P :=
  Discipline.Triple.fail fun _ _ h => h

/-- A value that may be missing. -/
theorem spec_ofOption {α : Type} {x : Option α} :
    Spec R P (Prog.ofOption x) (fun a w => P w ∧ x = some a) P :=
  Discipline.Triple.ofOption (fun _ ha _ _ hw => ⟨hw, ha⟩) fun _ _ _ hw => hw

end Calls

/-! ### The latest epoch -/

section Cycles

variable {env : KeeperEnv} {R : Regime env} {P : PayoutWorld → Prop}

/-- The account of an epoch, as it was read. -/
structure FoundEpoch (R : Regime env) (w : PayoutWorld) (acc : Epoch) : Prop where
  seen : Seen w acc
  settled : R.once → acc.finalized = false → SettledOn w acc

theorem staying_foundEpoch (R : Regime env) (acc : Epoch) :
    Staying R.kept (FoundEpoch R · acc) := by
  intro w w' hr h
  refine ⟨lasting_seen R.kept acc hr.toGrows h.seen, ?_⟩
  intro honce hopen
  exact staying_settledOn acc hr (h.settled honce hopen)

theorem fetchEpoch_spec (hP : Staying R.kept P) (index : Nat) :
    Spec R P (await (.fetchEpoch index)) (fun (found : Option Epoch) w => P w ∧
      ∀ acc, found = some acc → w.chain.epochs index = some acc ∧ acc.index.toNat = index ∧
        FoundEpoch R w acc) P := by
  refine spec_read (f := fun w => w.chain.epochs index)
    (fun _ _ => rfl) rfl hP (fun _ => trivial) ?_
  intro w hI hok hw
  refine ⟨hw, ?_⟩
  intro acc hacc
  have hfacts := hI.chain.facts index acc hacc
  have hplace := hfacts.place
  refine ⟨hacc, hplace, seen_of_epoch hacc hplace, ?_⟩
  intro honce hopen
  rw [← hplace] at hok hacc hfacts
  exact ⟨(R.settled honce w _ hok).read _ rfl acc hacc hopen, hfacts.pushed.symm⟩

theorem probe_spec (fuel : Nat) (idx : Int) :
    Spec R (fun _ => True) (probe fuel idx) (fun _ _ => True) (fun _ => True) := by
  induction fuel generalizing idx with
  | zero => exact spec_fail
  | succ fuel ih =>
      refine Discipline.Triple.bind (fetchEpoch_spec staying_true _) ?_
      intro next
      cases next with
      | some e => exact (ih (idx + 1)).pre fun _ _ _ => trivial
      | none => exact spec_ret fun _ _ _ => trivial

theorem stepBack_spec (steps : Nat) (i : Int) :
    Spec R (fun _ => True) (stepBack steps i)
      (fun latest w => ∀ acc, latest = some acc → FoundEpoch R w acc)
      (fun _ => True) := by
  induction steps generalizing i with
  | zero => exact spec_ret fun _ _ _ _ h => nomatch h
  | succ steps ih =>
      unfold stepBack
      split_ifs
      · exact spec_ret fun _ _ _ _ h => nomatch h
      · refine Discipline.Triple.bind (fetchEpoch_spec staying_true _) ?_
        intro found
        cases found with
        | some e =>
            refine spec_ret ?_
            intro w _ hw acc hacc
            exact (hw.2 acc hacc).2.2
        | none => exact (ih (i - 1)).pre fun _ _ _ => trivial

theorem findLatestOnChainEpoch_spec :
    Spec R (fun _ => True) findLatestOnChainEpoch
      (fun latest w => ∀ acc, latest = some acc → FoundEpoch R w acc)
      (fun _ => True) := by
  refine Discipline.Triple.bind (M := fun _ _ => True) ?_ ?_
  · exact spec_write rfl staying_true fun _ _ _ => trivial
  intro idx
  refine Discipline.Triple.bind (probe_spec _ _) ?_
  intro idx'
  exact stepBack_spec 3 idx'

/-! ### The plan -/

/-- The balances that pass the minimum holding at the prices read. -/
theorem applyMinHoldingFilter_spec (hP : Staying R.kept P) (twab : List (Pubkey × Nat))
    (events priorEvents : List (BalanceEvent Pubkey)) :
    Spec R (fun w => P w ∧ w.reads.events = events ∧ w.reads.priorEvents = priorEvents)
      (applyMinHoldingFilter env twab)
      (fun eligible w => P w ∧ (w.reads.events = events ∧ w.reads.priorEvents = priorEvents) ∧
        eligible = eligibleRead env w.reads twab) P := by
  unfold applyMinHoldingFilter eligibleRead
  split_ifs
  · refine Discipline.Triple.bind (M := fun candle w => P w ∧
      (w.reads.events = events ∧ w.reads.priorEvents = priorEvents) ∧ w.reads.candle = candle) ?_ ?_
    · exact spec_noted .getLatestCandleClose
        (fun r => r.events = events ∧ r.priorEvents = priorEvents)
        (fun candle r => (r.events = events ∧ r.priorEvents = priorEvents) ∧ r.candle = candle)
        (fun w => w.candleClose) (fun w => { w.reads with candle := w.candleClose })
        (fun _ _ => rfl) rfl hP (fun _ => trivial) fun w h => ⟨h, rfl⟩
    intro candle
    refine Discipline.Triple.bind (M := fun coin w => P w ∧
      ((w.reads.events = events ∧ w.reads.priorEvents = priorEvents) ∧ w.reads.candle = candle) ∧
        w.reads.coin = coin) ?_ ?_
    · exact spec_noted .getLatestPrice
        (fun r => (r.events = events ∧ r.priorEvents = priorEvents) ∧ r.candle = candle)
        (fun coin r => ((r.events = events ∧ r.priorEvents = priorEvents) ∧ r.candle = candle) ∧
          r.coin = coin)
        (fun w => w.coinPrice) (fun w => { w.reads with coin := w.coinPrice })
        (fun _ _ => rfl) rfl hP (fun _ => trivial) fun w h => ⟨h, rfl⟩
    intro coin
    refine spec_ret ?_
    intro w _ hw
    obtain ⟨hw, ⟨hreads, rfl⟩, rfl⟩ := hw
    exact ⟨hw, hreads, rfl⟩
  · exact spec_ret fun w _ hw => ⟨hw.1, hw.2, rfl⟩

theorem planOf_valid {eligible : List (Pubkey × Nat)} {total : Nat} {plan : Plan}
    (h : (eligible.map (·.1)).Nodup) (hplan : planOf env eligible total = some plan) :
    ValidPlan plan.items total := by
  simp only [planOf, Option.ite_none_left_eq_some] at hplan
  obtain ⟨hne, hplan⟩ := hplan
  cases hplan
  rcases @planItems_valid env eligible h total with hnil | hvalid
  · rw [hnil] at hne
    exact absurd rfl hne
  · exact hvalid

theorem planRead_valid {reads : PlanReads} {startTs endTs : Int} {total : Nat} {plan : Plan}
    (h : planRead env reads startTs endTs total = some plan) : ValidPlan plan.items total := by
  obtain ⟨twab, htwab, h⟩ := Option.bind_eq_some_iff.mp h
  exact planOf_valid ((nodup_computeTwab htwab).sublist ((eligibleRead_sublist _ _ _).map _)) h

/-- A plan is what the balances and prices read make. -/
theorem computePlan_spec (hP : Staying R.kept P) (startTs endTs : Int) (total : Nat) :
    Spec R P (computePlan env startTs endTs total)
      (fun plan w => P w ∧ plan = planRead env w.reads startTs endTs total) P := by
  refine Discipline.Triple.bind (M := fun events w => P w ∧ w.reads.events = events) ?_ ?_
  · refine Discipline.Triple.pre (S := fun w => P w ∧ True) ?_ fun w _ hw => ⟨hw, trivial⟩
    exact spec_noted (.getBalanceEvents startTs endTs) (fun _ => True)
      (fun events r => r.events = events)
      (fun w => eventRows w fun ts => startTs ≤ ts ∧ ts < endTs)
      (fun w => { w.reads with events := eventRows w fun ts => startTs ≤ ts ∧ ts < endTs })
      (fun _ _ => rfl) rfl hP (fun _ => trivial) fun _ _ => rfl
  intro events
  refine Discipline.Triple.bind (M := fun priorEvents w => P w ∧
    w.reads.events = events ∧ w.reads.priorEvents = priorEvents) ?_ ?_
  · exact spec_noted (.getBalanceEventsBefore startTs) (fun r => r.events = events)
      (fun priorEvents r => r.events = events ∧ r.priorEvents = priorEvents)
      (fun w => eventRows w (· < startTs))
      (fun w => { w.reads with priorEvents := eventRows w (· < startTs) })
      (fun _ _ => rfl) rfl hP (fun _ => trivial) fun _ h => ⟨h, rfl⟩
  intro priorEvents
  refine Discipline.Triple.bind (spec_ofOption.conseq (fun _ _ h => h) (fun _ _ _ h => h)
    fun _ _ h => h.1) ?_
  intro twab
  refine Discipline.Triple.pre (S := fun w => computeTwab (priorEvents ++ events)
    { start := startTs, stop := endTs, exclude := env.excludedAddresses } = some twab ∧
      P w ∧ w.reads.events = events ∧ w.reads.priorEvents = priorEvents) ?_
    fun w _ hw => hw.symm
  refine Discipline.Triple.pure ?_
  intro htwab
  have hread : ∀ r : PlanReads, r.events = events ∧ r.priorEvents = priorEvents →
      planRead env r startTs endTs total = planOf env (eligibleRead env r twab) total := by
    intro r hr
    unfold planRead
    rw [hr.1, hr.2, htwab]
    rfl
  split_ifs with hempty
  · refine spec_ret ?_
    intro w _ hw
    refine ⟨hw.1, ?_⟩
    have hnil : eligibleRead env w.reads twab = [] := by
      have hsub := eligibleRead_sublist env w.reads twab
      rw [List.isEmpty_iff.mp hempty] at hsub ⊢
      exact List.sublist_nil.mp hsub
    rw [hread _ hw.2, hnil, planOf_nil]
  refine Discipline.Triple.bind (applyMinHoldingFilter_spec hP twab events priorEvents) ?_
  intro eligible
  split_ifs with hnone
  · refine spec_ret ?_
    intro w _ hw
    refine ⟨hw.1, ?_⟩
    rw [hread _ hw.2.1, ← hw.2.2, List.isEmpty_iff.mp hnone, planOf_nil]
  · refine spec_ret ?_
    intro w _ hw
    exact ⟨hw.1, by rw [hread _ hw.2.1, ← hw.2.2]⟩

/-! ### Sending -/

/-- Attempts to send a transaction, where the fact survives one that is lost. -/
theorem sendWithPriority_spec (tx : PayoutTx) {Q : PayoutWorld → Prop} (hP : Staying R.kept P)
    (hlost : ∀ w, P w → P { w with chain := w.chain.submit tx })
    (hpre : ∀ w, PayoutInv R.kept w → R.allowed w (.call (.submit tx)) → P w →
      SubmitPromise R w tx)
    (hQ : ∀ w chain, PayoutInv R.kept w → P w → w.chain.confirm env tx = some chain →
      Q { w with chain }) :
    Spec R P (sendWithPriority tx) (fun _ => Q) P := by
  unfold sendWithPriority
  induction maxRetries with
  | zero => exact spec_fail
  | succ attempts ih =>
      refine spec_call (fun r w => r.elim (P w) fun _ => Q w) hP hpre ?_ ?_
      · intro w r reply w' hI _ hw h
        obtain ⟨chain, hconfirm, rfl, rfl⟩ | ⟨rfl, rfl | rfl⟩ := answerSubmit_eq h
        · exact hQ w chain hI hw hconfirm
        · exact hw
        · exact hlost w hw
      · intro r
        cases r with
        | some _ => exact spec_ret fun _ _ hw => hw
        | none => exact ih

/-- What lasts survives a transaction. -/
theorem Lasting.submit {kept : Prop} (hP : Lasting kept P) (w : PayoutWorld) (tx : PayoutTx)
    (hw : P w) : P { w with chain := w.chain.submit tx } :=
  hP ⟨.submit w.chain tx, fun _ _ => rfl⟩ hw

theorem Lasting.confirm {kept : Prop} (hP : Lasting kept P) {w : PayoutWorld} {tx : PayoutTx}
    {chain : Chain} (hI : PayoutInv kept w) (hconfirm : w.chain.confirm env tx = some chain)
    (hw : P w) : P { w with chain } :=
  hP ⟨(Chain.confirm_spec hconfirm hI.chain).2, fun _ _ => rfl⟩ hw

/-! ### What was pushed -/

theorem recordNew_spec (hP : Staying R.kept P) {index : Nat} {events : List EpochPlanItem}
    (hevents : ∀ w, P w → ∀ ev ∈ events, ev ∈ w.chain.paid index) (pushed : List (Pubkey × Nat)) :
    Spec R P (recordNew index events pushed)
      (fun found w => P w ∧ found = events.foldl addPayout pushed) P := by
  induction events generalizing pushed with
  | nil => exact spec_ret fun w _ hw => ⟨hw, rfl⟩
  | cons ev events ih =>
      have hrest := ih fun w hw ev hev => hevents w hw ev (List.mem_cons_of_mem _ hev)
      unfold recordNew
      rw [List.foldl_cons]
      split_ifs with hmem
      · rw [addPayout_of_mem hmem]
        exact hrest pushed
      · refine Discipline.Triple.bind (M := fun _ => P) ?_ fun _ => hrest (addPayout pushed ev)
        exact spec_write rfl hP fun w _ hw => hevents w hw ev List.mem_cons_self

/-- What the rows of an epoch say, once they are read. -/
structure RowsRead (w : PayoutWorld) (index : Nat) (settled : Prop)
    (rows : List EpochPlanItem) : Prop where
  paid : WalletsPaid w index (rows.map (·.wallet))
  tell : settled → RowsTell rows (w.chain.paid index)

/-- The rows, and the wallets of what was paid, where these are found. -/
structure FoundPushed (w : PayoutWorld) (index : Nat) (settled : Prop)
    (pushed : List (Pubkey × Nat)) : Prop where
  paid : WalletsPaid w index (pushed.map (·.1))
  all : settled → ∀ q ∈ w.chain.paid index, q.wallet ∈ pushed.map (·.1)

/-- Whoever is found pushed was paid; and where the pushes are settled, whoever was paid is
found. -/
theorem reconcilePushed_spec (hP : Staying R.kept P) (acc : Epoch) (settled : Prop)
    (honce : settled → R.once) (hsettled : settled → ∀ w, P w → SettledOn w acc) :
    Spec R P (reconcilePushed acc)
      (fun pushed w => P w ∧ FoundPushed w acc.index.toNat settled pushed) P := by
  have hrowsRead : ∀ rows, Staying R.kept fun w =>
      P w ∧ RowsRead w acc.index.toNat settled rows := by
    intro rows w w' hr h
    refine ⟨hP hr h.1, lasting_walletsPaid _ _ hr.toGrows h.2.paid, ?_⟩
    intro hs
    rw [(hsettled hs w h.1).paid_eq hr]
    exact h.2.tell hs
  refine Discipline.Triple.bind (M := fun rows w => (rows.map (·.wallet)).Nodup ∧
    P w ∧ RowsRead w acc.index.toNat settled rows) ?_ ?_
  · refine spec_await (o := .getPushedPayouts acc.index.toNat) rfl hP (fun _ _ _ => trivial) ?_
    intro w rows reply w' hI hok _ hw' h
    obtain ⟨rfl, h | h⟩ := answerQuery_eq h
    · obtain ⟨-, rfl⟩ := readPushed_eq_some.mp h.symm
      refine ⟨hI.distinct _, hw', ?_, fun hs => (R.settled (honce hs) w' _ hok).rows _ rfl⟩
      intro wallet hwallet
      obtain ⟨item, hitem, rfl⟩ := List.mem_map.mp hwallet
      obtain ⟨r, hr, rfl⟩ := List.mem_map.mp hitem
      obtain ⟨hr, hepoch⟩ := List.mem_filter.mp hr
      obtain ⟨p, hp, hrow⟩ := hI.pushes r hr
      rw [of_decide_eq_true hepoch] at hp
      rw [hrow.wallet]
      exact List.mem_map_of_mem hp
    · cases h
  intro rows
  refine Discipline.Triple.pure ?_
  intro hnodup
  have hkeys : (pushedMap rows).map (·.1) = rows.map (·.wallet) := by
    rw [pushedMap_eq hnodup]
    simp
  split_ifs with htotal
  · refine spec_ret ?_
    intro w _ hw
    refine ⟨hw.1, ?_, ?_⟩
    · rw [hkeys]
      exact hw.2.paid
    · intro hs q hq
      rw [hkeys]
      have hpaid := (hsettled hs w hw.1).paid
      have htell := hw.2.tell hs [] (List.nil_subperm) nofun (by rw [planTotal_nil]; omega) q hq
      exact htell.resolve_right List.not_mem_nil
  refine Discipline.Triple.bind (M := fun events w =>
    (P w ∧ RowsRead w acc.index.toNat settled rows) ∧
      events.Subperm (w.chain.paid acc.index.toNat)) ?_ ?_
  · refine (spec_await (o := .payoutEvents acc.index.toNat) rfl (hrowsRead rows)
      (fun _ _ _ => trivial) ?_).conseq
      (fun _ _ h => h) (fun _ _ _ h => h) fun _ _ h => h.1
    intro w events reply w' _ _ _ hw' h
    obtain ⟨rfl, hsub⟩ := answerEvents_eq h
    exact ⟨hw', hsub events rfl⟩
  intro events
  have hsubperm : Staying R.kept fun w => events.Subperm (w.chain.paid acc.index.toNat) :=
    fun _ _ hr h => h.trans (hr.chain.paid _)
  have hevents := (hrowsRead rows).and hsubperm
  refine Discipline.Triple.bind
    ((recordNew_spec hevents (fun w hw ev hev => hw.2.subset hev) _).conseq (fun _ _ h => h)
    (fun _ _ _ h => h) fun _ _ h => h.1.1) ?_
  intro pushed
  obtain ⟨more, hmore⟩ := exists_addsTo (pushedMap rows) events
  obtain ⟨hsum, hfound⟩ := pushedSum_addsTo hnodup hmore
  split_ifs with hfoundTotal
  · refine spec_ret ?_
    intro w _ hw
    obtain ⟨⟨⟨hw, hrows⟩, hsub⟩, rfl⟩ := hw
    have hmorePaid : more.Subperm (w.chain.paid acc.index.toNat) :=
      hmore.sublist.subperm.trans hsub
    refine ⟨hw, ?_, ?_⟩
    · intro wallet hwallet
      rcases (hfound wallet).mp hwallet with hin | hin
      · exact hrows.paid wallet hin
      · obtain ⟨p, hp, rfl⟩ := List.mem_map.mp hin
        exact List.mem_map_of_mem (hmorePaid.subset hp)
    · intro hs q hq
      have hpaid := (hsettled hs w hw).paid
      refine (hfound q.wallet).mpr (hrows.tell hs more hmorePaid ?_ (by omega) q hq)
      intro p hp
      rw [← hkeys]
      exact hmore.fresh p hp
  · exact Discipline.Triple.fail fun w _ hw => hw.1.1.1

/-! ### Pushing and finalizing -/

section Finalizing

variable {acc : Epoch} {plan : List EpochPlanItem} {already : List Pubkey}

/-- What `pushAndFinalize` is called with. -/
structure Ready (R : Regime env) (w : PayoutWorld) (acc : Epoch) (plan : List EpochPlanItem)
    (already : List Pubkey) : Prop where
  seen : Seen w acc
  opened : R.kept → PlanOpened w acc plan
  paid : WalletsPaid w acc.index.toNat already
  fills : R.fits → Done w acc.index.toNat ∨
    FillsOn w acc.index.toNat acc.totalAmount.toNat plan already

theorem lasting_ready (R : Regime env) (acc : Epoch) (plan : List EpochPlanItem)
    (already : List Pubkey) : Lasting R.kept (Ready R · acc plan already) := by
  intro w w' hg h
  refine ⟨lasting_seen R.kept acc hg h.seen, lasting_planOpened acc plan hg h.opened,
    lasting_walletsPaid _ _ hg h.paid, ?_⟩
  intro hfits
  refine (h.fills hfits).imp (fun hdone => lasting_done _ hg hdone) ?_
  intro hfills
  refine ⟨hfills.nodup, hfills.total, ?_⟩
  intro p hp hin
  obtain ⟨q, hq, hwallet, hle⟩ := hfills.pushed p hp hin
  exact ⟨q, mem_paid_of_grows hg.chain hq, hwallet, hle⟩

/-- Between two pushes: some of the plan was pushed, and nobody else is paid. -/
structure Pushing (R : Regime env) (w : PayoutWorld) (acc : Epoch) (plan : List EpochPlanItem)
    (already : List Pubkey) (pushed : List EpochPlanItem) : Prop where
  ready : Ready R w acc plan already
  paid : AllPaid w acc.index.toNat pushed
  accounted : R.once → Accounted w acc.index.toNat (already ++ pushed.map (·.wallet))

theorem staying_pushing (R : Regime env) (acc : Epoch) (plan : List EpochPlanItem)
    (already : List Pubkey) (pushed : List EpochPlanItem) :
    Staying R.kept (Pushing R · acc plan already pushed) := by
  intro w w' hr h
  refine ⟨lasting_ready R acc plan already hr.toGrows h.ready,
    lasting_allPaid _ _ _ hr.toGrows h.paid, ?_⟩
  intro honce
  exact staying_accounted _ _ hr (h.accounted honce)

theorem PlanPromise.of_ready {w : PayoutWorld} {tx : PayoutTx} (h : Ready R w acc plan already)
    (hacc : tx.acc = some acc) (hplan : tx.plan = plan) (hi : acc.index.toNat = tx.payload.index) :
    PlanPromise R.kept w tx acc := by
  subst hplan
  exact ⟨hacc, hi, h.seen, h.opened⟩

/-- A push that is confirmed pays its chunk. -/
theorem AllPaid.confirm {w : PayoutWorld} {index : Nat} {pushed chunk : List EpochPlanItem}
    {tx : PayoutTx} {chain : Chain} (h : AllPaid w index pushed)
    (hconfirm : w.chain.confirm env tx = some chain) (hitems : itemsOf index tx = chunk) :
    AllPaid { w with chain } index (pushed ++ chunk) := by
  have hperm := Chain.paid_confirm hconfirm index
  rw [hitems] at hperm
  intro p hp
  refine hperm.mem_iff.mpr ?_
  rcases List.mem_append.mp hp with hp | hp
  · exact List.mem_append_right _ (h p hp)
  · exact List.mem_append_left _ hp

/-- What a confirmed transaction adds to the pushes of an epoch. -/
theorem AccountedBut.confirm {w : PayoutWorld} {index : Nat} {wallets : List Pubkey}
    {tx : PayoutTx} {chain : Chain} (h : AccountedBut w index (· = tx) wallets)
    (hconfirm : w.chain.confirm env tx = some chain) :
    Accounted { w with chain } index (wallets ++ (itemsOf index tx).map (·.wallet)) := by
  obtain ⟨e, -, rfl⟩ := Chain.confirm_eq hconfirm
  intro s' hs' _ hlive p hp
  have hlater : Later (send w.chain.txs tx) (settle (send w.chain.txs tx) w.chain.txs.length
    .landed) := settle_later get_send_self rfl
  obtain ⟨s, hs, hle⟩ := hlater.origin hs'
  rw [hle.message] at hp
  by_cases htx : s.message = tx
  · rw [htx] at hp
    exact List.mem_append_right _ (List.mem_map_of_mem hp)
  · refine List.mem_append_left _ (h s ?_ htx (hle.status_ne hlive (by decide)) p hp)
    rcases List.mem_append.mp hs with hs | hs
    · exact hs
    · rw [List.mem_singleton.mp hs] at htx
      exact absurd rfl htx

theorem pushChunk_spec {pushed chunk : List EpochPlanItem}
    (hchunk : (pushed ++ chunk).Sublist (remainingOf plan already)) :
    Spec R (fun w => Pushing R w acc plan already pushed) (pushChunk acc plan already chunk)
      (fun _ w => Pushing R w acc plan already (pushed ++ chunk)) (fun _ => True) := by
  refine Discipline.Triple.bind spec_ofOption.any ?_
  intro items
  refine Discipline.Triple.pre (S := fun w => encodeItems chunk = some items ∧
    Pushing R w acc plan already pushed) ?_ fun w _ hw => hw.symm
  refine Discipline.Triple.pure ?_
  intro hitems
  rw [encodeItems_eq_some] at hitems
  -- while it is sent, nobody else is paid but by its own attempts
  let tx : PayoutTx := { payload := .pushPayouts acc.index.toNat items, plan, acc := some acc
                         already, leaves := [] }
  have htx : itemsOf acc.index.toNat tx = chunk := by simp [itemsOf, tx, hitems]
  have hlasting := (lasting_ready R acc plan already).and
    (lasting_allPaid R.kept acc.index.toNat pushed)
  refine Discipline.Triple.bind (M := fun _ w => Pushing R w acc plan already (pushed ++ chunk))
    (Discipline.Triple.pre (S := fun w =>
      (Ready R w acc plan already ∧ AllPaid w acc.index.toNat pushed) ∧
        (R.once → AccountedBut w acc.index.toNat (· = tx) (already ++ pushed.map (·.wallet))))
      (sendWithPriority_spec tx
        (hlasting.staying.and (staying_accountedBut _ _ _).imp) ?_ ?_ ?_).any ?_) ?_
  · intro w hw
    refine ⟨hlasting.submit w tx hw.1, ?_⟩
    intro honce s hs hother hlive p hp
    rcases List.mem_append.mp hs with hs | hs
    · exact hw.2 honce s hs hother hlive p hp
    · rw [List.mem_singleton.mp hs] at hother
      exact absurd rfl hother
  · intro w hI hok hw
    refine ⟨⟨acc, .of_ready hw.1.1 rfl rfl rfl⟩, ?_, ?_⟩
    · intro honce hnodup p hp q hq heq
      -- an attempt made before will not land, and other pushes pay other wallets
      obtain ⟨s, hs, hlive, hq⟩ := mem_liveOf.mp hq
      have hother : s.message ≠ tx := fun hsame =>
        hlive ((R.settled honce w _ hok).retried tx rfl ⟨_, _, rfl⟩ s hs hsame)
      have hin := hw.2 honce s hs hother hlive q hq
      rw [hitems] at hp
      have hleft := hchunk.subset (List.mem_append_right pushed hp)
      have hremaining : ((remainingOf plan already).map (·.wallet)).Nodup :=
        hnodup.sublist (List.filter_sublist.map _)
      rcases List.mem_append.mp hin with hin | hin
      · rw [heq] at hin
        exact (of_decide_eq_true (List.mem_filter.mp hleft).2).2 hin
      · have hall := hremaining.sublist (hchunk.map _)
        rw [List.map_append] at hall
        exact (List.nodup_append.mp hall).2.2 _ hin _ (List.mem_map_of_mem hp) heq
    · change (items.map planItem).Sublist (remainingOf plan already)
      rw [hitems]
      exact (List.sublist_append_right _ _).trans hchunk
  · intro w chain hI hw hconfirm
    refine ⟨(lasting_ready R acc plan already).confirm hI hconfirm hw.1.1,
      hw.1.2.confirm hconfirm htx, ?_⟩
    intro honce
    have hafter := (hw.2 honce).confirm hconfirm
    rwa [htx, List.append_assoc, ← List.map_append] at hafter
  · intro w _ hw
    exact ⟨⟨hw.ready, hw.paid⟩, fun honce s hs _ hlive => hw.accounted honce s hs id hlive⟩
  intro _
  refine Discipline.Triple.forEach (I := fun _ w =>
    Pushing R w acc plan already (pushed ++ chunk)) ?_
  intro done c rest hl
  refine Discipline.Triple.any (spec_write rfl (staying_pushing R acc plan already _) ?_)
  intro w _ hw
  exact hw.paid c (by simp [hl])

/-- The pushes, one after another. -/
theorem pushChunks_spec {pushable : List EpochPlanItem}
    (hsub : pushable.Sublist (remainingOf plan already)) :
    Spec R (fun w => Pushing R w acc plan already [])
      (Prog.forEach (chunks pushable) (pushChunk acc plan already))
      (fun _ w => Pushing R w acc plan already pushable) (fun _ => True) := by
  have hloop : Spec R (fun w => Pushing R w acc plan already ([] : List (List _)).flatten)
      (Prog.forEach (chunks pushable) (pushChunk acc plan already))
      (fun _ w => Pushing R w acc plan already (chunks pushable).flatten)
      (fun _ => True) := by
    refine Discipline.Triple.forEach (I := fun chunks w =>
      Pushing R w acc plan already chunks.flatten) ?_
    intro done chunk rest hl
    have hflat := flatten_chunks pushable
    rw [hl, List.flatten_append, List.flatten_cons, ← List.append_assoc] at hflat
    have hchunk : (done.flatten ++ chunk).Sublist pushable := by
      rw [← hflat]
      exact List.sublist_append_left _ _
    rw [List.flatten_append, List.flatten_cons, List.flatten_nil, List.append_nil]
    exact pushChunk_spec (hchunk.trans hsub)
  rwa [flatten_chunks] at hloop

theorem writeFinalized_spec (hP : Staying R.kept P) (hseen : ∀ w, P w → Seen w acc)
    (tree : Option EpochMerkleTree) :
    Spec R P (writeFinalized env acc.index.toNat tree) (fun _ => P) P := by
  refine Discipline.Triple.bind (M := fun _ => P) ?_ ?_
  · cases tree with
    | none => exact spec_ret fun _ _ hw => hw
    | some tree =>
        refine Discipline.Triple.bind spec_ofOption ?_
        intro rows
        exact Discipline.Triple.pre (spec_write rfl hP fun _ _ _ => trivial) fun w _ hw => hw.1
  intro _
  refine Discipline.Triple.bind (M := fun _ => P) (spec_write rfl hP fun _ _ _ => trivial) ?_
  intro _
  exact spec_write rfl hP fun w _ hw => exists_epoch_of_seen (hseen w hw)

/-- What is left of the plan is closed under a root. -/
theorem finalize_spec {s : Split}
    (hperm : (s.pushable ++ s.merkle).Perm (remainingOf plan already)) :
    Spec R (fun w => Pushing R w acc plan already s.pushable)
      (finalize env acc plan already s) (fun _ _ => True) (fun _ => True) := by
  have hlast := (lasting_ready R acc plan already).and
    (lasting_allPaid R.kept acc.index.toNat s.pushable)
  refine Discipline.Triple.bind
    (M := fun _ w => Ready R w acc plan already ∧ AllPaid w acc.index.toNat s.pushable) ?_ ?_
  · refine (spec_write rfl hlast.staying ?_).any.pre fun w _ hw => ⟨hw.ready, hw.paid⟩
    intro w _ hw
    exact exists_epoch_of_seen hw.1.seen
  intro _
  refine Discipline.Triple.bind spec_ofOption.any ?_
  intro tree
  split_ifs
  · exact spec_fail.any
  refine Discipline.Triple.bind spec_ofOption.any ?_
  intro merkleTotal
  refine Discipline.Triple.pre (S := fun w =>
    ((epochTree env acc.index.toNat (sortByWallet env s.merkle)).toOption = some tree ∧
      IceMarkets.toU64 (treeTotal tree) = some merkleTotal) ∧
    Ready R w acc plan already ∧ AllPaid w acc.index.toNat s.pushable) ?_ fun w _ hw =>
      ⟨⟨hw.1.2, hw.2⟩, hw.1.1⟩
  refine Discipline.Triple.pure ?_
  intro hvalues
  obtain ⟨htree, htotal⟩ := hvalues
  replace htree := toOption_eq_some htree
  rw [toU64_eq_some, treeTotal_eq htree] at htotal
  have hleaves : (s.pushable ++ sortByWallet env s.merkle).Perm (remainingOf plan already) :=
    ((perm_sortByWallet s.merkle).append_left _).trans hperm
  refine Discipline.Triple.bind
    (M := fun _ w => Ready R w acc plan already ∧ AllPaid w acc.index.toNat s.pushable)
    (sendWithPriority_spec _ hlast.staying (fun w => hlast.submit w _) ?_ ?_).any ?_
  · intro w _ _ hw
    refine ⟨⟨tree, htree, rfl⟩, htotal, hw.1.paid,
      ⟨acc, s.pushable, .of_ready hw.1 rfl rfl rfl, hleaves, hw.2⟩, ?_⟩
    intro hfits
    obtain ⟨e, he, hev⟩ := hw.1.seen
    refine ⟨e, he, (hw.1.fills hfits).imp ?_ ?_⟩
    · intro hdone
      obtain ⟨e', he', hfin⟩ := hdone
      cases he.symm.trans he'
      exact hfin
    · intro hfills
      rw [hev.totalAmount, htotal]
      exact hfills.total_le hleaves hw.2
  · intro w chain hI hw hconfirm
    exact hlast.confirm hI hconfirm hw
  intro _
  exact (writeFinalized_spec hlast.staying (fun w hw => hw.1.seen) tree).conseq (fun _ _ h => h)
    (fun _ _ _ _ => trivial) fun _ _ _ => trivial

theorem pushAndFinalize_spec {pushed : List (Pubkey × Nat)} :
    Spec R (fun w => Pushing R w acc plan (pushed.map (·.1)) [])
      (pushAndFinalize env acc plan pushed)
      (fun _ _ => True) (fun _ => True) := by
  have hready := staying_pushing R acc plan (pushed.map (·.1)) []
  refine Discipline.Triple.bind
    (M := fun _ w => Pushing R w acc plan (pushed.map (·.1)) []) ?_ ?_
  · exact Discipline.Triple.any (spec_write rfl hready fun _ _ _ => trivial)
  intro cfg
  refine Discipline.Triple.bind
    (M := fun _ w => Pushing R w acc plan (pushed.map (·.1)) []) ?_ ?_
  · split_ifs
    · exact spec_ret fun _ _ hw => hw
    · exact Discipline.Triple.any (spec_write rfl hready fun _ _ _ => trivial)
  intro infos
  obtain ⟨pushable, left, hs⟩ := splitRemaining_spec
    (keeperPushCap acc.totalAmount.toNat cfg.maxPushPerEpochBps.toNat)
    (remainingOf plan (pushed.map (·.1))) infos
    { pushable := [], merkle := [], pushedTotal := acc.pushedAmount.toNat }
  change Splits _ _ _ (splitPlan cfg acc plan (pushed.map (·.1)) infos) _ _ at hs
  have hpushable : (splitPlan cfg acc plan (pushed.map (·.1)) infos).pushable = pushable := by
    simpa using hs.pushable
  have hmerkle : (splitPlan cfg acc plan (pushed.map (·.1)) infos).merkle =
    left := by simpa using hs.merkle
  refine Discipline.Triple.bind (pushChunks_spec (hpushable ▸ hs.pushed_sublist)) ?_
  intro _
  refine finalize_spec ?_
  rw [hpushable, hmerkle]
  exact hs.perm

end Finalizing

/-! ### Resuming -/

/-- A plan that is saved, whether the row is written or not. -/
theorem saveEpochPlan_spec {row : EpochProgressRow} {m : PlanReads → Prop}
    {Q : PayoutWorld → Prop} (hP : Staying R.kept P)
    (hrow : ∀ w, m w.reads → Promised R w (.saveEpochPlan row))
    (hQ : ∀ w, PayoutInv R.kept w → R.allowed w (.call (.saveEpochPlan row)) → P w → m w.reads →
      Q { w with db := w.db.saveEpochPlan row }) :
    Spec R (fun w => P w ∧ m w.reads) (await (.saveEpochPlan row)) (fun _ => Q)
      (fun _ => True) := by
  refine Discipline.Triple.await (hP.stable m) (fun w _ _ hw => hrow w hw.2) ?_
    fun _ _ _ _ _ _ => trivial
  intro w a w' hI hok hw h
  obtain ⟨reply, h⟩ := h
  obtain rfl | ⟨-, hnone⟩ := answerWrite_eq h
  · exact hQ w hI hok hw.1 hw.2
  · cases hnone

/-- The plan an epoch is resumed with. -/
structure Resumed (R : Regime env) (w : PayoutWorld) (acc : Epoch)
    (plan : List EpochPlanItem) : Prop where
  seen : Seen w acc
  settled : R.once → SettledOn w acc
  opened : R.kept → PlanOpened w acc plan
  fits : R.fits → Done w acc.index.toNat ∨
    Fits w.chain acc.index.toNat acc.totalAmount.toNat plan

theorem staying_resumed (R : Regime env) (acc : Epoch) (plan : List EpochPlanItem) :
    Staying R.kept (Resumed R · acc plan) := by
  intro w w' hr h
  refine ⟨lasting_seen R.kept acc hr.toGrows h.seen, ?_,
    lasting_planOpened acc plan hr.toGrows h.opened, ?_⟩
  · intro honce
    exact staying_settledOn acc hr (h.settled honce)
  · intro hfits
    exact staying_fits _ _ plan hr (h.fits hfits)

variable {acc : Epoch}

/-- A row stored for the total of an epoch. -/
theorem Resumed.of_stored {w : PayoutWorld} {row : EpochProgressRow} (h : FoundEpoch R w acc)
    (hopen : acc.finalized = false)
    (hok : R.allowed w (.call (.getEpochProgress acc.index.toNat)))
    (hrow : w.db.epochProgress acc.index.toNat = some row)
    (htotal : row.totalAmount = acc.totalAmount.toNat) : Resumed R w acc row.plan := by
  refine ⟨h.seen, fun honce => h.settled honce hopen, ?_, ?_⟩
  · intro _
    left
    simp only [PayoutDb.stored, hrow, Option.map_some, htotal]
  · intro hfits
    obtain ⟨e, he, hev⟩ := h.seen
    cases hfin : e.finalized with
    | true => exact .inl ⟨e, he, hfin⟩
    | false =>
        right
        have hfit := (R.fitting hfits w _ hok).stored _ rfl e he hfin row hrow
          (by rw [htotal, hev.totalAmount])
        rwa [htotal] at hfit

/-- The row of an epoch that is resumed. -/
def resumedRow (acc : Epoch) (plan : List EpochPlanItem) : EpochProgressRow :=
  plannedRow acc.index.toNat acc.startTs acc.endTs acc.totalAmount.toNat plan

/-- A plan computed again for an epoch. -/
theorem Resumed.of_computed {w : PayoutWorld} {plan : List EpochPlanItem}
    (hI : PayoutInv R.kept w) (h : FoundEpoch R w acc)
    (hopen : acc.finalized = false)
    (hok : R.allowed w (.call (.saveEpochPlan (resumedRow acc plan))))
    (hplan : plan = itemsRead env w.reads (resumedRow acc plan)) :
    Resumed R { w with db := w.db.saveEpochPlan (resumedRow acc plan) } acc plan := by
  obtain ⟨e, he, hev⟩ := h.seen
  refine ⟨⟨e, he, hev⟩, ?_, ?_, ?_⟩
  · intro honce
    have hsettled := h.settled honce hopen
    exact ⟨hsettled.settled, hsettled.paid⟩
  · intro hk
    obtain ⟨args, opened, hopens, -, -, htotal⟩ := (hI.chain.facts _ e he).opened
    have hopenable : (args, opened) ∈ w.chain.openable acc.index.toNat := by
      rw [Chain.openable, if_neg (by simp [he]), hopens]
      exact List.mem_singleton_self _
    have hagree := (R.keeps hk w _ hok).2 _ rfl (args, opened) hopenable
      (by rw [← htotal, hev.totalAmount]; rfl)
    rw [← hplan] at hagree
    right
    refine ⟨args, ?_⟩
    rw [hopens, ← hagree]
    exact List.mem_singleton_self _
  · intro hfits
    cases hfin : e.finalized with
    | true => exact .inl ⟨e, he, hfin⟩
    | false =>
        right
        have hfit := (R.fitting hfits w _ hok).computed _ rfl e he hfin hev.startTs.symm
          hev.endTs.symm (by rw [hev.totalAmount]; rfl)
        rw [← hplan] at hfit
        exact ⟨hfit.nodup, hfit.total, hfit.pushed⟩

theorem resumedPlan_spec (hopen : acc.finalized = false) :
    Spec R (FoundEpoch R · acc) (resumedPlan env acc)
      (fun plan w => Resumed R w acc plan) (fun _ => True) := by
  have hfound := staying_foundEpoch R acc
  refine Discipline.Triple.bind (M := fun (progress : Option EpochProgressRow) w =>
    FoundEpoch R w acc ∧ ∀ row, progress.filter (·.totalAmount = acc.totalAmount.toNat) =
      some row → Resumed R w acc row.plan) ?_ ?_
  · refine Discipline.Triple.any
      (spec_read (f := fun w => w.db.epochProgress acc.index.toNat) (fun _ _ => rfl)
      rfl hfound (fun _ => trivial) ?_)
    intro w _ hok hw
    refine ⟨hw, ?_⟩
    intro row hfilter
    obtain ⟨hrow, htotal⟩ := Option.filter_eq_some_iff.mp hfilter
    exact .of_stored hw hopen hok hrow (by simpa using htotal)
  intro progress
  cases hfilter : Option.filter (·.totalAmount = acc.totalAmount.toNat) progress with
  | some row =>
      simp only
      exact spec_ret fun w _ hw => hw.2 row rfl
  | none =>
      simp only
      refine Discipline.Triple.bind
        ((computePlan_spec hfound _ _ _).conseq (fun _ _ h => h.1) (fun _ _ _ h => h)
          fun _ _ _ => trivial) ?_
      intro recomputed
      refine Discipline.Triple.bind (M := fun _ w =>
        Resumed R w acc ((recomputed.map (·.items)).getD [])) ?_ fun _ => spec_ret fun _ _ hw => hw
      have hitems : ∀ reads : PlanReads,
          recomputed = planRead env reads acc.startTs acc.endTs acc.totalAmount.toNat →
          (recomputed.map (·.items)).getD [] = itemsRead env reads
            (resumedRow acc ((recomputed.map (·.items)).getD [])) := by
        intro reads h
        simp only [itemsRead, resumedRow, plannedRow, ← h]
      refine saveEpochPlan_spec (m := fun reads => recomputed =
        planRead env reads acc.startTs acc.endTs acc.totalAmount.toNat) hfound ?_ ?_
      · intro w h
        exact ⟨rfl, hitems w.reads h⟩
      · intro w hI hok hw h
        exact .of_computed hI hw hopen hok (hitems w.reads h)

theorem resumeEpoch_spec (hopen : acc.finalized = false) :
    Spec R (FoundEpoch R · acc) (resumeEpoch env acc) (fun _ _ => True) (fun _ => True) := by
  refine Discipline.Triple.bind (resumedPlan_spec hopen) ?_
  intro plan
  have hlast := staying_resumed R acc plan
  refine Discipline.Triple.bind (M := fun _ w => Resumed R w acc plan) ?_ ?_
  · exact Discipline.Triple.any (spec_write rfl hlast fun w _ hw => exists_epoch_of_seen hw.seen)
  intro _
  refine Discipline.Triple.bind (M := fun _ w => Resumed R w acc plan) ?_ ?_
  · exact Discipline.Triple.any (spec_write rfl hlast fun _ _ _ => trivial)
  intro _
  refine Discipline.Triple.catch_ (F := fun _ => True) ?_ ?_
  · refine Discipline.Triple.bind (reconcilePushed_spec hlast acc R.once id
      fun honce w hw => hw.settled honce).any ?_
    intro pushed
    refine pushAndFinalize_spec.pre ?_
    intro w _ hw
    obtain ⟨hw, hfound⟩ := hw
    refine ⟨⟨hw.seen, hw.opened, hfound.paid, ?_⟩, nofun, ?_⟩
    · intro hfits
      exact (hw.fits hfits).imp_right fun hfit => hfit.fillsOn hfound.paid
    · intro honce
      rw [List.map_nil, List.append_nil]
      exact (hw.settled honce).accounted (hfound.all honce)
  · refine Discipline.Triple.bind (M := fun _ _ => True) ?_ fun _ => spec_fail
    exact spec_write rfl staying_true fun _ _ _ => trivial

theorem repairFinalizedBookkeeping_spec (hP : Staying R.kept P) (hseen : ∀ w, P w → Seen w acc) :
    Spec R P (repairFinalizedBookkeeping env acc) (fun _ => P) P := by
  refine Discipline.Triple.bind (M := fun _ => P) (spec_write rfl hP fun _ _ _ => trivial) ?_
  intro progress
  cases Option.filter (·.phase ≠ .finalized) progress with
  | none => exact spec_ret fun _ _ hw => hw
  | some row =>
      simp only
      refine Discipline.Triple.bind (M := fun _ => P) ?_ ?_
      · exact (reconcilePushed_spec hP acc False nofun nofun).conseq
          (fun _ _ h => h) (fun _ _ _ h => h.1) fun _ _ h => h
      intro pushed
      refine Discipline.Triple.bind (M := fun _ => P)
        (spec_ofOption.conseq (fun _ _ h => h) (fun _ _ _ h => h.1) fun _ _ h => h) ?_
      intro tree
      split_ifs
      · exact writeFinalized_spec hP hseen tree
      · exact spec_write rfl hP fun _ _ _ => trivial

/-! ### Opening -/

theorem lasting_follows (kept : Prop) (index : Nat) (startTs : Int) :
    Lasting kept fun w => Follows w.chain index startTs := fun _ _ hg h => h.grows hg.chain

/-- While the epoch is not there, the row is of the plan. -/
def SavedFor (w : PayoutWorld) (index : Nat) (plan : List EpochPlanItem) (total : Nat) : Prop :=
  w.chain.epochs index = none → w.db.stored index = some (plan, total)

theorem epoch_none_of_grows {c c' : Chain} (h : c.Grows c') {index : Nat}
    (he : c'.epochs index = none) :
    c.epochs index = none := by
  cases hc : c.epochs index with
  | none => rfl
  | some e =>
      obtain ⟨e', he', -⟩ := h.epochs index e hc
      rw [he] at he'
      cases he'

theorem lasting_savedFor (kept : Prop) (index : Nat) (plan : List EpochPlanItem) (total : Nat) :
    Lasting kept fun w => kept → SavedFor w index plan total := by
  intro w w' hg h hk he
  rw [hg.stored hk]
  exact h hk (epoch_none_of_grows hg.chain he)

/-- A row that is not overwritten is of an epoch that is there. -/
theorem savedFor_saveEpochPlan {w : PayoutWorld} (hI : PayoutInv R.kept w)
    (hk : R.kept) {index : Nat}
    {startTs endTs : Int} {total : Nat} {plan : List EpochPlanItem} :
    SavedFor { w with db := w.db.saveEpochPlan
                        (plannedRow index startTs endTs total plan) } index plan total := by
  intro he
  simp only [PayoutDb.stored_saveEpochPlan]
  refine if_pos ⟨rfl, ?_⟩
  intro r hr
  by_contra hphase
  obtain ⟨hmem, hindex⟩ := PayoutDb.epochProgress_mem hr
  obtain ⟨e, hopened⟩ := hI.opened hk r hmem hphase
  rw [hindex, he] at hopened
  cases hopened

/-- The epoch is there for the plan and its amount, and nothing of it was pushed. -/
structure OpenedFor (w : PayoutWorld) (index total : Nat) (plan : List EpochPlanItem) : Prop where
  epoch : ∃ e, w.chain.epochs index = some e ∧ e.totalAmount.toNat = total
  opens : ∃ args, (args, plan) ∈ w.chain.opens index
  unpushed : Accounted w index []

theorem staying_openedFor (kept : Prop) (index total : Nat) (plan : List EpochPlanItem) :
    Staying kept (OpenedFor · index total plan) := by
  intro w w' hr h
  obtain ⟨e, he, htotal⟩ := h.epoch
  obtain ⟨args, hargs⟩ := h.opens
  obtain ⟨e', he', hev⟩ := hr.chain.epochs index e he
  exact ⟨⟨e', he', by rw [hev.totalAmount, htotal]⟩, ⟨args, (hr.chain.opens index).subset hargs⟩,
    staying_accounted index [] hr h.unpushed⟩

/-- What opening an epoch leaves. -/
theorem confirm_open {c c' : Chain} {tx : PayoutTx} {args : OpenEpochArgs}
    (hp : tx.payload = .openEpoch args)
    (h : c.confirm env tx = some c') :
    c.epochs args.index.toNat = none ∧
      c'.epochs args.index.toNat = some (openedEpoch env.coinMint args) ∧
      (args, tx.plan) ∈ c'.opens args.index.toNat := by
  obtain ⟨e, hrecord, rfl⟩ := Chain.confirm_eq h
  have hopens : ((c.submit tx).land c.txs.length tx.payload.index e).opens args.index.toNat |>.Perm
      (opensOf args.index.toNat tx ++ (c.submit tx).opens args.index.toNat) :=
    landedOf_land get_send_self rfl
  have hmem : (args, tx.plan) ∈ opensOf args.index.toNat tx := mem_opensOf.mpr ⟨hp, rfl, rfl⟩
  rw [hp] at hrecord
  cases accepted_of_record hrecord with
  | opened fresh window =>
      refine ⟨fresh, ?_, hopens.mem_iff.mpr (List.mem_append_left _ hmem)⟩
      rw [hp]
      exact Function.update_self ..

/-- An epoch that is opened, the plan saved before. -/
theorem openedFor_confirm {w : PayoutWorld} {chain : Chain} {tx : PayoutTx} {args : OpenEpochArgs}
    (hI : PayoutInv R.kept w) (hp : tx.payload = .openEpoch args)
    (hconfirm : w.chain.confirm env tx = some chain) :
    OpenedFor { w with chain } args.index.toNat args.totalAmount.toNat tx.plan := by
  obtain ⟨hnone, hsome, hopens⟩ := confirm_open hp hconfirm
  refine ⟨⟨_, hsome, rfl⟩, ⟨args, hopens⟩, ?_⟩
  -- no push is signed for an epoch that is not there
  have hunpushed : AccountedBut w args.index.toNat (· = tx) [] := by
    intro s hs _ _ p hitem
    exfalso
    have hpays : s.message.pays = true := by
      by_contra hnot
      rw [itemsOf_of_not_pays (Bool.eq_false_iff.mpr hnot)] at hitem
      cases hitem
    obtain ⟨e, he⟩ := hI.signed s.message (List.mem_map_of_mem hs) hpays
    by_cases hi : s.message.payload.index = args.index.toNat
    · rw [hi, hnone] at he
      cases he
    · rw [itemsOf_of_ne hi] at hitem
      cases hitem
  have hafter := hunpushed.confirm hconfirm
  have hnil : itemsOf args.index.toNat tx = [] := by simp only [itemsOf, hp]
  rwa [hnil] at hafter

/-- A fresh epoch is pushed and finalized by the plan it was opened for. -/
theorem OpenedFor.pushing {w : PayoutWorld} {acc : Epoch} {total : Nat}
    {plan : List EpochPlanItem} (h : OpenedFor w acc.index.toNat total plan)
    (hplan : ValidPlan plan total) (hacc : w.chain.epochs acc.index.toNat = some acc) :
    Pushing R w acc plan [] [] := by
  have htotal : acc.totalAmount.toNat = total := by
    obtain ⟨e, he, htotal⟩ := h.epoch
    cases hacc.symm.trans he
    exact htotal
  refine ⟨⟨⟨acc, hacc, .refl acc⟩, fun _ => .inr h.opens, nofun, ?_⟩, nofun, fun _ => h.unpushed⟩
  intro _
  right
  rw [htotal]
  exact ⟨hplan.nodup, hplan.total.ge, fun _ _ hin => absurd hin List.not_mem_nil⟩

theorem openPlanned_spec {index : UInt32} {startTs endTs : Int} {total : UInt64} {plan : Plan} :
    Spec R (fun w => Follows w.chain index.toNat startTs ∧
        some plan = planRead env w.reads startTs endTs total.toNat)
      (openPlanned env index startTs endTs total plan)
      (fun _ _ => True) (fun _ => True) := by
  have hfollows := (lasting_follows R.kept index.toNat startTs)
  have hlast := hfollows.and (lasting_savedFor R.kept index.toNat plan.items total.toNat)
  have hopened := staying_openedFor R.kept index.toNat total.toNat plan.items
  refine Discipline.Triple.bind (M := fun _ w => ValidPlan plan.items total.toNat ∧
    Follows w.chain index.toNat startTs ∧
      (R.kept → SavedFor w index.toNat plan.items total.toNat)) ?_ ?_
  · refine saveEpochPlan_spec
      (m := fun reads => some plan = planRead env reads startTs endTs total.toNat)
      hfollows.staying ?_ ?_
    · intro w h
      refine ⟨rfl, ?_⟩
      simp only [itemsRead, plannedRow, ← h]
      rfl
    · intro w hI _ hw h
      exact ⟨planRead_valid h.symm, hw, fun hk => savedFor_saveEpochPlan hI hk⟩
  intro _
  refine Discipline.Triple.pure ?_
  intro hplan
  refine Discipline.Triple.bind spec_ofOption.any ?_
  intro args
  refine Discipline.Triple.pre
    (S := fun w => openArgs env index startTs endTs total plan = some args ∧
    Follows w.chain index.toNat startTs ∧
      (R.kept → SavedFor w index.toNat plan.items total.toNat)) ?_
    fun w _ hw => hw.symm
  refine Discipline.Triple.pure ?_
  intro hargs
  obtain ⟨eligibleHolders, -, rfl⟩ := Option.map_eq_some_iff.mp hargs
  refine Discipline.Triple.bind
    (M := fun _ w => OpenedFor w index.toNat total.toNat plan.items)
    (sendWithPriority_spec _ hlast.staying (fun w => hlast.submit w _) ?_ ?_).any ?_
  · intro w _ _ hw
    exact ⟨hplan, hw.1, hw.2⟩
  · intro w chain hI _ hconfirm
    exact openedFor_confirm hI rfl hconfirm
  intro _
  refine Discipline.Triple.bind
    (M := fun _ w => OpenedFor w index.toNat total.toNat plan.items) ?_ ?_
  · refine Discipline.Triple.any (spec_write rfl hopened ?_)
    intro w _ hw
    obtain ⟨e, he, -⟩ := hw.epoch
    exact ⟨e, he⟩
  intro _
  refine Discipline.Triple.bind
    (M := fun _ w => OpenedFor w index.toNat total.toNat plan.items) ?_ ?_
  · exact Discipline.Triple.any (spec_write rfl hopened fun _ _ _ => trivial)
  intro _
  refine Discipline.Triple.bind (fetchEpoch_spec hopened _).any ?_
  intro found
  cases found with
  | none => exact spec_fail.any
  | some acc =>
      refine pushAndFinalize_spec.pre ?_
      intro w _ hw
      obtain ⟨hacc, hi, -⟩ := hw.2 acc rfl
      rw [← hi] at hacc hw
      exact hw.1.pushing hplan hacc

/-- The latest epoch, closed. -/
def Closed (w : PayoutWorld) (latest : Option Epoch) : Prop :=
  ∀ acc, latest = some acc → Seen w acc ∧ acc.finalized = true

theorem lasting_closed (kept : Prop) (latest : Option Epoch) : Lasting kept (Closed · latest) :=
  fun _ _ hg h acc hacc => ⟨lasting_seen kept acc hg (h acc hacc).1, (h acc hacc).2⟩

theorem Closed.follows {w : PayoutWorld} {latest : Option Epoch} (h : Closed w latest)
    {startTs : Int} :
    Follows w.chain ((latest.map fun e => e.index.toNat + 1).getD 0)
      ((latest.map (·.endTs)).getD startTs) := by
  intro k hk
  cases latest with
  | none => cases hk
  | some acc =>
      obtain ⟨⟨e, he, hev⟩, hfin⟩ := h acc rfl
      obtain rfl : acc.index.toNat = k := Nat.succ.inj hk
      exact ⟨e, he, hev.finalized hfin, hev.endTs.symm⟩

theorem toU32_eq {v : Nat} {u : UInt32} (h : toU32 v = some u) : u.toNat = v := by
  unfold toU32 at h
  split_ifs at h with hlt
  cases h
  exact UInt32.toNat_ofNatLT ..

theorem openNewEpoch_spec {latest : Option Epoch} :
    Spec R (Closed · latest) (openNewEpoch env latest) (fun _ _ => True) (fun _ => True) := by
  have hclosed := (lasting_closed R.kept latest).staying
  refine spec_call (fun _ w => Closed w latest) hclosed (fun _ _ _ _ => trivial) ?_ ?_
  · intro w r reply w' hI _ hw h
    exact hclosed (rests_of_effect hI (effect_of_respond h) rfl) hw
  intro balance
  cases balance with
  | none => exact spec_ret fun _ _ _ => trivial
  | some vault =>
      simp only
      split_ifs
      · exact spec_ret fun _ _ _ => trivial
      refine Discipline.Triple.bind (M := fun _ w => Closed w latest) ?_ ?_
      · exact Discipline.Triple.any (spec_write rfl hclosed fun _ _ _ => trivial)
      intro coinPrice
      cases Option.filter (env.worthOpening (UInt64.toNat vault)) coinPrice with
      | none => exact spec_ret fun _ _ _ => trivial
      | some price =>
          simp only
          refine Discipline.Triple.bind (M := fun _ w => Closed w latest) ?_ ?_
          · exact Discipline.Triple.any (spec_write rfl hclosed fun _ _ _ => trivial)
          intro now
          split_ifs
          · exact spec_ret fun _ _ _ => trivial
          refine Discipline.Triple.bind (computePlan_spec hclosed _ _ _).any ?_
          intro plan
          cases plan with
          | none => exact spec_ret fun _ _ _ => trivial
          | some plan =>
              refine Discipline.Triple.bind spec_ofOption.any ?_
              intro index
              refine openPlanned_spec.pre ?_
              intro w _ hw
              rw [toU32_eq hw.2]
              exact ⟨hw.1.1.follows, hw.1.2⟩

/-! ### The cycle -/

theorem runPayoutsForPool_spec :
    Spec R (fun _ => True) (runPayoutsForPool env) (fun _ _ => True) (fun _ => True) := by
  refine Discipline.Triple.bind findLatestOnChainEpoch_spec ?_
  intro latest
  cases latest with
  | none => exact openNewEpoch_spec.pre fun _ _ _ => nofun
  | some acc =>
      simp only
      split_ifs with hfin
      · exact (resumeEpoch_spec hfin).pre fun w _ hw => hw acc rfl
      have hclosed := (lasting_closed R.kept (some acc)).staying
      refine Discipline.Triple.bind (M := fun _ w => Closed w (some acc)) ?_ fun _ =>
        openNewEpoch_spec
      refine Discipline.Triple.catch_ (F := fun w => Closed w (some acc)) ?_ ?_
      · refine (repairFinalizedBookkeeping_spec hclosed fun w hw => (hw acc rfl).1).pre ?_
        intro w _ hw acc' hacc'
        cases hacc'
        exact ⟨(hw acc rfl).seen, by simpa using hfin⟩
      · exact Discipline.Triple.any (spec_write rfl hclosed fun _ _ _ => trivial)

/-- The cycle keeps every promise, in any world a run can reach. -/
theorem runPayoutsForPool_safe {w : PayoutWorld} (hI : PayoutInv R.kept w) :
    (payoutDiscipline R).Safe (runPayoutsForPool env) w := runPayoutsForPool_spec w hI trivial

end Cycles

/-! ### Runs -/

/-- A property of a world that whatever a run does to it keeps. -/
structure KeptInRuns {env : KeeperEnv} (R : Regime env) (I : PayoutWorld → Prop) : Prop where
  submit : ∀ w tx, PayoutInv R.kept w → I w → R.allowed w (.call (.submit tx)) →
    SubmitPromise R w tx →
    I { w with chain := w.chain.submit tx }
  land : ∀ w sig s e, PayoutInv R.kept w → I w → w.chain.txs[sig]? = some s → s.status = .pending →
    record env w.chain s.message.payload = some e →
      I { w with chain := w.chain.land sig s.message.payload.index e }
  expire : ∀ w sig s, I w → w.chain.txs[sig]? = some s → s.status = .pending →
    I { w with chain := { w.chain with txs := settle w.chain.txs sig .expired } }
  claim : ∀ w index e claimed, I w → w.chain.epochs index = some e →
    I { w with chain := w.chain.setEpoch index { e with claimedAmount := claimed } }
  save : ∀ w row, PayoutInv R.kept w → I w → R.allowed w (.call (.saveEpochPlan row)) →
    row.plan = itemsRead env w.reads row → I { w with db := w.db.saveEpochPlan row }
  same : ∀ w w' : PayoutWorld, I w → w'.chain.epochs = w.chain.epochs → w'.chain.txs = w.chain.txs →
    (R.kept → ∀ index, w'.db.stored index = w.db.stored index) → I w'

section Runs

variable {env : KeeperEnv} {R : Regime env} {I : PayoutWorld → Prop} {w w' : PayoutWorld}

theorem KeptInRuns.call (h : KeptInRuns R I) {o : PayoutOp} (hI : PayoutInv R.kept w) (hw : I w)
    (hok : R.allowed w (.call o)) (hpre : Promised R w o)
    (heff : CallEffect env w o w') : I w' := by
  cases heff with
  | same o => exact hw
  | noted o reads => exact h.same w _ hw rfl rfl fun _ _ => rfl
  | saved row => exact h.save w row hI hw hok hpre.2
  | phase index phase => exact h.same w _ hw rfl rfl fun _ _ => PayoutDb.stored_setEpochPhase
  | inserted index => exact h.same w _ hw rfl rfl fun _ _ => rfl
  | recorded index item =>
      exact h.same w _ hw rfl rfl fun _ _ => PayoutDb.stored_congr PayoutDb.progress_insertPayout
  | submitted tx => exact h.submit w tx hI hw hok hpre
  | @confirmed tx chain hconfirm =>
      -- submitted, and landed at once
      obtain ⟨e, hrecord, rfl⟩ := Chain.confirm_eq hconfirm
      exact h.land { w with chain := w.chain.submit tx } w.chain.txs.length _ e
        (hI.call (.submitted tx) hpre)
        (h.submit w tx hI hw hok hpre) get_send_self rfl hrecord

theorem KeptInRuns.chainStep (h : KeptInRuns R I) {ev : ChainEvent} {chain : Chain}
    (hstep : chainStep env w.chain ev = some chain) (hI : PayoutInv R.kept w) (hw : I w) :
    I { w with chain } := by
  cases ev with
  | land sig =>
      obtain ⟨s, hs, hstep⟩ := Option.bind_eq_some_iff.mp hstep
      obtain ⟨hp, hstep⟩ := Option.ite_none_right_eq_some.mp hstep
      obtain ⟨e, hrecord, hstep⟩ := Option.bind_eq_some_iff.mp hstep
      cases hstep
      exact h.land w sig s e hI hw hs hp hrecord
  | expire sig =>
      obtain ⟨s, hs, hstep⟩ := Option.bind_eq_some_iff.mp hstep
      obtain ⟨hp, hstep⟩ := Option.ite_none_right_eq_some.mp hstep
      cases hstep
      exact h.expire w sig s hw hs hp
  | tick now =>
      obtain ⟨-, hstep⟩ := Option.ite_none_right_eq_some.mp hstep
      cases hstep
      exact h.same w _ hw rfl rfl fun _ _ => rfl
  | configure config =>
      cases hstep
      exact h.same w _ hw rfl rfl fun _ _ => rfl
  | claim index claimed =>
      obtain ⟨e, he, hstep⟩ := Option.bind_eq_some_iff.mp hstep
      obtain ⟨-, hstep⟩ := Option.ite_none_right_eq_some.mp hstep
      cases hstep
      exact h.claim w index e claimed hw he

theorem KeptInRuns.event (h : KeptInRuns R I) {ev : PayoutEvent}
    (hI : PayoutInv R.kept w) (hw : I w)
    (hok : R.allowed w (.env ev)) (hstep : payoutEvent env w ev = some w') : I w' := by
  cases ev with
  | chain e =>
      obtain ⟨chain, hchain, rfl⟩ := Option.map_eq_some_iff.mp hstep
      exact h.chainStep hchain hI hw
  | inputs vault coinPrice candleClose balanceEvents clock =>
      cases hstep
      exact h.same w _ hw rfl rfl fun _ _ => rfl
  | tokenAccount wallet exists_ =>
      cases hstep
      exact h.same w _ hw rfl rfl fun _ _ => rfl
  | ingestEpoch index =>
      obtain ⟨-, hstep⟩ := Option.ite_none_right_eq_some.mp hstep
      cases hstep
      exact h.same w _ hw rfl rfl fun _ _ => rfl
  | ingestPayout index item =>
      obtain ⟨-, hstep⟩ := Option.ite_none_right_eq_some.mp hstep
      cases hstep
      exact h.same w _ hw rfl rfl fun _ _ => PayoutDb.stored_congr PayoutDb.progress_insertPayout
  | progress rows =>
      cases hstep
      exact h.same w _ hw rfl rfl fun hk => absurd rfl (R.ne_progress hk hok rows)

/-- Before the first epoch nothing has landed. -/
theorem PayoutWorld.Fresh.inv {kept : Prop} (h : w.Fresh) : PayoutInv kept w := by
  refine ⟨⟨?_, ?_⟩, ?_, ?_, ?_, ?_⟩
  · intro index e he
    rw [h.epochs index] at he
    cases he
  · intro index _
    refine ⟨?_, ?_, ?_⟩
    · rw [Chain.opens, h.txs]
      rfl
    · rw [Chain.paid, h.txs]
      rfl
    · rw [Chain.closings, h.txs]
      rfl
  · rw [h.db]
    intro r hr
    cases hr
  · intro index
    rw [h.db]
    exact List.nodup_nil
  · intro tx htx
    rw [Chain.signed, h.txs] at htx
    cases htx
  · rw [h.db]
    intro _ row hrow
    cases hrow

/-- What a run keeps holds wherever it ends. -/
theorem PayoutRun.invariant {tr : List (Act PayoutOp Unit PayoutEvent)} {s : PayoutConfig}
    (h : PayoutRun env R.allowed tr s) (hkept : KeptInRuns R I)
    (hfresh : ∀ w : PayoutWorld, w.Fresh → I w) :
    PayoutInv R.kept s.1 ∧ I s.1 := by
  obtain ⟨w, hw, hrun⟩ := h
  have hworld : Lts.Run (payoutDiscipline R).WorldStep w tr s.1 :=
    Discipline.run_world (fun _ _ hI => runPayoutsForPool_safe hI) hrun hw.inv rfl
  refine hworld.invariant (I := fun w => PayoutInv R.kept w ∧ I w) ?_ ⟨hw.inv, hfresh w hw⟩
  intro w a w' hstep hw
  refine ⟨hstep.inv, ?_⟩
  obtain ⟨-, hok, hstep⟩ := hstep
  cases a with
  | start c =>
      rw [hstep]
      exact hw.2
  | call o =>
      obtain ⟨hpre, r, reply, hrespond⟩ := hstep
      exact hkept.call hw.1 hw.2 hok hpre (effect_of_respond hrespond)
  | finish =>
      rw [hstep]
      exact hw.2
  | crash =>
      rw [hstep]
      exact hw.2
  | env ev => exact hkept.event hw.1 hw.2 hok hstep

end Runs

end IceMarkets.Keeper
