import IceMarkets.Keeper.Conditions

/-!
# IceMarkets.Keeper.Promises

What the calls of the payout cycle do to the world, and what the cycle promises at each.

`effect_of_respond` says once what a call can leave. `PayoutInv` is what any run keeps, as
long as the calls that sign or write are promised (`Promised`). `PayoutWorld.Grows` is what a
world may become while no plan is saved, and `PayoutWorld.Rests` what it may while nothing is
sent either; a fact that rest keeps needs no proof at any call but `saveEpochPlan` and
`submit`.

What the cycle promises of the plans and the pushes depends on the conditions of its regime.
-/

namespace IceMarkets.Keeper

open Distributor Sdk InFlight Async

/-! ### What a call does -/

/-- What a call may leave of the world. -/
inductive CallEffect (env : KeeperEnv) (w : PayoutWorld) : PayoutOp → PayoutWorld → Prop
  | same (o : PayoutOp) : CallEffect env w o w
  | noted (o : PayoutOp) (reads : PlanReads) : CallEffect env w o { w with reads }
  | saved (row : EpochProgressRow) :
      CallEffect env w (.saveEpochPlan row) { w with db := w.db.saveEpochPlan row }
  | phase (index : Nat) (phase : EpochPhase) :
      CallEffect env w (.setEpochPhase index phase) { w with db := w.db.setEpochPhase index phase }
  | inserted (index : Nat) : CallEffect env w (.insertEpoch index)
    { w with db := w.db.insertEpoch index }
  | recorded (index : Nat) (item : EpochPlanItem) :
      CallEffect env w (.recordPayout index item) { w with db := w.db.recordPayout index item }
  | submitted (tx : PayoutTx) : CallEffect env w (.submit tx) { w with chain := w.chain.submit tx }
  | confirmed {tx : PayoutTx} {chain : Chain} (h : w.chain.confirm env tx = some chain) :
      CallEffect env w (.submit tx) { w with chain }

section Calls

variable {env : KeeperEnv} {w w' w₁ : PayoutWorld} {reply : PayoutReply}

theorem answerRead_eq {α : Type} {a : α} {r : Option α} (h : answerRead w a reply = some (r, w')) :
    w' = w ∧ (r = some a ∨ r = none) := by
  cases reply with
  | done =>
      cases h
      exact ⟨rfl, .inl rfl⟩
  | failed =>
      cases h
      exact ⟨rfl, .inr rfl⟩
  | lost => cases h
  | found events => cases h

theorem answerNoted_eq {α : Type} {reads : PlanReads} {a : α} {r : Option α}
    (h : answerNoted w reads a reply = some (r, w')) :
    r = some a ∧ w' = { w with reads } ∨ r = none ∧ w' = w := by
  cases reply with
  | done =>
      cases h
      exact .inl ⟨rfl, rfl⟩
  | failed =>
      cases h
      exact .inr ⟨rfl, rfl⟩
  | lost => cases h
  | found events => cases h

theorem answerQuery_eq {α : Type} {a r : Option α} (h : answerQuery w a reply = some (r, w')) :
    w' = w ∧ (r = a ∨ r = none) := by
  cases reply with
  | done =>
      obtain ⟨x, rfl, heq⟩ := Option.map_eq_some_iff.mp h
      cases heq
      exact ⟨rfl, .inl rfl⟩
  | failed =>
      cases h
      exact ⟨rfl, .inr rfl⟩
  | lost => cases h
  | found events => cases h

theorem answerWrite_eq {r : Option Unit} (h : answerWrite w w₁ reply = some (r, w')) :
    w' = w₁ ∨ w' = w ∧ r = none := by
  cases reply with
  | done =>
      cases h
      exact .inl rfl
  | failed =>
      cases h
      exact .inr ⟨rfl, rfl⟩
  | lost =>
      cases h
      exact .inl rfl
  | found events => cases h

theorem answerSubmit_eq {tx : PayoutTx} {r : Option Unit}
    (h : answerSubmit env w tx reply = some (r, w')) :
    (∃ chain, w.chain.confirm env tx = some chain ∧ r = some () ∧ w' = { w with chain }) ∨
      r = none ∧ (w' = w ∨ w' = { w with chain := w.chain.submit tx }) := by
  cases reply with
  | done =>
      obtain ⟨chain, hconfirm, heq⟩ := Option.map_eq_some_iff.mp h
      cases heq
      exact .inl ⟨chain, hconfirm, rfl, rfl⟩
  | failed =>
      cases h
      exact .inr ⟨rfl, .inl rfl⟩
  | lost =>
      cases h
      exact .inr ⟨rfl, .inr rfl⟩
  | found events => cases h

theorem answerEvents_eq {index : Nat} {r : Option (List EpochPlanItem)}
    (h : answerEvents w index reply = some (r, w')) :
    w' = w ∧ ∀ events, r = some events → events.Subperm (w.chain.paid index) := by
  cases reply with
  | done => cases h
  | failed =>
      cases h
      exact ⟨rfl, nofun⟩
  | lost => cases h
  | found events =>
      obtain ⟨hsub, h⟩ := Option.ite_none_right_eq_some.mp h
      cases h
      refine ⟨rfl, ?_⟩
      intro events' heq
      cases heq
      exact hsub

theorem effect_of_read {o : PayoutOp} {α : Type} {a : α} {r : Option α}
    (h : answerRead w a reply = some (r, w')) : CallEffect env w o w' := by
  obtain ⟨rfl, -⟩ := answerRead_eq h
  exact .same o

theorem effect_of_noted {o : PayoutOp} {α : Type} {reads : PlanReads} {a : α} {r : Option α}
    (h : answerNoted w reads a reply = some (r, w')) : CallEffect env w o w' := by
  obtain ⟨-, rfl⟩ | ⟨-, rfl⟩ := answerNoted_eq h
  · exact .noted o reads
  · exact .same o

theorem effect_of_write {o : PayoutOp} {r : Option Unit} (h : answerWrite w w₁ reply = some (r, w'))
    (hw : CallEffect env w o w₁) : CallEffect env w o w' := by
  obtain rfl | ⟨rfl, -⟩ := answerWrite_eq h
  · exact hw
  · exact .same o

theorem effect_of_respond {o : PayoutOp} {r : Option o.Answer}
    (h : respond env w o reply = some (r, w')) :
    CallEffect env w o w' := by
  cases o with
  | saveEpochPlan row => exact effect_of_write h (.saved row)
  | setEpochPhase index phase => exact effect_of_write h (.phase index phase)
  | insertEpoch index => exact effect_of_write h (.inserted index)
  | recordPayout index item => exact effect_of_write h (.recorded index item)
  | insertMerkleLeaves rows => exact effect_of_write h (.same _)
  | markEpochFinalized index => exact effect_of_write h (.same _)
  | setEpochError index => exact effect_of_write h (.same _)
  | submit tx =>
      obtain ⟨chain, hconfirm, -, rfl⟩ | ⟨-, rfl | rfl⟩ := answerSubmit_eq h
      · exact .confirmed hconfirm
      · exact .same _
      · exact .submitted tx
  | payoutEvents index =>
      obtain ⟨rfl, -⟩ := answerEvents_eq h
      exact .same _
  | getPushedPayouts index =>
      obtain ⟨rfl, -⟩ := answerQuery_eq h
      exact .same _
  | getLatestPrice => exact effect_of_noted h
  | getLatestCandleClose => exact effect_of_noted h
  | getBalanceEvents startTs endTs => exact effect_of_noted h
  | getBalanceEventsBefore startTs => exact effect_of_noted h
  | _ => exact effect_of_read h

end Calls

/-! ### Rows -/

namespace PayoutDb

/-- The plan and the total stored for an epoch. -/
def stored (db : PayoutDb) (index : Nat) : Option (List EpochPlanItem × Nat) :=
  (db.epochProgress index).map fun r => (r.plan, r.totalAmount)

variable {db : PayoutDb} {index : Nat}

theorem epochProgress_mem {row : EpochProgressRow} (h : db.epochProgress index = some row) :
    row ∈ db.progress ∧ row.epochIndex = index :=
  ⟨List.mem_of_find?_eq_some h, by simpa using List.find?_some h⟩

/-- The row of an index in rows rewritten in place. -/
theorem epochProgress_map {f : EpochProgressRow → EpochProgressRow}
    (hf : ∀ r, (f r).epochIndex = r.epochIndex) :
    { db with progress := db.progress.map f }.epochProgress index =
      (db.epochProgress index).map f := by
  unfold epochProgress
  simp only [List.find?_map, Function.comp_def, hf]

theorem stored_setEpochPhase {i : Nat} {phase : EpochPhase} :
    (db.setEpochPhase i phase).stored index = db.stored index := by
  unfold stored setEpochPhase
  rw [epochProgress_map (by intro r; split_ifs <;> rfl), Option.map_map]
  congr 1
  funext r
  simp only [Function.comp_apply]
  split_ifs <;> rfl

/-- What is stored once a plan is saved. -/
theorem stored_saveEpochPlan {row : EpochProgressRow} :
    (db.saveEpochPlan row).stored index =
      if row.epochIndex = index ∧ ∀ r, db.epochProgress index = some r → r.phase = .planned then
        some (row.plan, row.totalAmount)
      else db.stored index := by
  unfold saveEpochPlan
  by_cases hsome : (db.epochProgress row.epochIndex).isSome
  · rw [if_pos hsome]
    unfold stored
    rw [epochProgress_map (by
      intro r
      split_ifs with h
      · exact h.1.symm
      · rfl)]
    cases hr : db.epochProgress index with
    | none =>
        have hne : row.epochIndex ≠ index := by
          intro hx
          obtain rfl := hx
          rw [hr] at hsome
          cases hsome
        simp [hne]
    | some r =>
        have hindex := (epochProgress_mem hr).2
        subst hindex
        by_cases h : r.epochIndex = row.epochIndex
        · by_cases hp : r.phase = .planned
          · simp [h, hp]
          · simp [hp]
        · simp [h, Ne.symm h]
  · rw [if_neg hsome]
    have hnone : db.epochProgress row.epochIndex = none := by simpa using hsome
    unfold stored
    by_cases h : row.epochIndex = index
    · subst h
      unfold epochProgress at hnone ⊢
      simp [List.find?_append, hnone]
    · unfold epochProgress
      simp [List.find?_append, h]

theorem mem_saveEpochPlan {row r : EpochProgressRow} (h : r ∈ (db.saveEpochPlan row).progress) :
    r ∈ db.progress ∨ r = row := by
  simp only [saveEpochPlan] at h
  split_ifs at h with hsome
  · obtain ⟨r', hr', rfl⟩ := List.mem_map.mp h
    split_ifs
    · exact .inr rfl
    · exact .inl hr'
  · simpa using h

theorem mem_insertPayout {item : EpochPlanItem} {r : PushRow}
    (h : r ∈ (db.insertPayout index item).pushes) :
    r ∈ db.pushes ∨ r = { epoch := index, item } := by
  unfold insertPayout at h
  split_ifs at h with hany
  · exact .inl h
  · simpa using h

@[simp] theorem progress_insertPayout {item : EpochPlanItem} :
    (db.insertPayout index item).progress = db.progress := by
  unfold insertPayout
  split_ifs <;> rfl

/-- An epoch has one row of a wallet. -/
theorem nodup_insertPayout {item : EpochPlanItem}
    (h : ∀ i, ((db.pushedPayouts i).map (·.wallet)).Nodup) (i : Nat) :
    (((db.insertPayout index item).pushedPayouts i).map (·.wallet)).Nodup := by
  unfold insertPayout
  split_ifs with hany
  · exact h i
  have hrows : ({ db with pushes := db.pushes ++ [{ epoch := index, item }] } :
      PayoutDb).pushedPayouts i =
      db.pushedPayouts i ++ if index = i then [item] else [] := by
    unfold pushedPayouts
    by_cases hi : index = i <;> simp [List.filter_append, hi]
  rw [hrows]
  split_ifs with hi
  · subst hi
    rw [List.map_append]
    refine (h index).append (List.nodup_singleton _) ?_
    intro wallet hwallet hnew
    obtain ⟨item', hitem', rfl⟩ := List.mem_map.mp hwallet
    obtain ⟨r, hr, rfl⟩ := List.mem_map.mp hitem'
    obtain ⟨hr, hepoch⟩ := List.mem_filter.mp hr
    refine hany (List.any_eq_true.mpr ⟨r, hr, ?_⟩)
    rw [decide_eq_true_iff]
    exact ⟨of_decide_eq_true hepoch, by simpa using hnew⟩
  · simpa using h i

theorem stored_congr {db' : PayoutDb} (h : db'.progress = db.progress) :
    db'.stored index = db.stored index := by
  simp only [stored, epochProgress, h]

end PayoutDb

/-! ### What becomes of a world -/

/-- What a world may become while no plan is saved. -/
structure PayoutWorld.Grows (kept : Prop) (w w' : PayoutWorld) : Prop where
  chain : w.chain.Grows w'.chain
  stored : kept → ∀ index, w'.db.stored index = w.db.stored index

/-- What a world may become while nothing is sent either. -/
structure PayoutWorld.Rests (kept : Prop) (w w' : PayoutWorld) : Prop
    extends PayoutWorld.Grows kept w w' where
  later : Later w.chain.txs w'.chain.txs

/-- A row of `payouts` is of something that was paid, as one of the writers stores it. -/
def RowOf (r p : EpochPlanItem) : Prop := ∃ writer : RowWriter, r = writer.row p

theorem RowOf.wallet {r p : EpochPlanItem} (h : RowOf r p) : r.wallet = p.wallet := by
  obtain ⟨writer, rfl⟩ := h
  cases writer with
  | keeper => exact recordedItem_wallet p
  | indexer => rfl

/-- What any run keeps. -/
structure PayoutInv (kept : Prop) (w : PayoutWorld) : Prop where
  chain : ChainInv w.chain
  pushes : ∀ r ∈ w.db.pushes, ∃ p ∈ w.chain.paid r.epoch, RowOf r.item p
  distinct : ∀ index, ((w.db.pushedPayouts index).map (·.wallet)).Nodup
  signed : ∀ tx ∈ w.chain.signed, tx.pays = true → ∃ e, w.chain.epochs tx.payload.index = some e
  opened : kept → ∀ row ∈ w.db.progress, row.phase ≠ .planned →
    ∃ e, w.chain.epochs row.epochIndex = some e

/-- The rows of an epoch are of payouts made. -/
theorem PayoutInv.exists_storedRows {kept : Prop} {w : PayoutWorld} (h : PayoutInv kept w)
    (index : Nat) : ∃ rows, storedRows rows = w.db.pushedPayouts index ∧
      (rows.map (·.1)).Subperm (w.chain.paid index) := by
  have hpaid : ∀ r ∈ w.db.pushedPayouts index, ∃ p ∈ w.chain.paid index, RowOf r p := by
    intro r hr
    obtain ⟨row, hrow, rfl⟩ := List.mem_map.mp hr
    obtain ⟨hmem, hepoch⟩ := List.mem_filter.mp hrow
    obtain rfl := of_decide_eq_true hepoch
    exact h.pushes row hmem
  have hnodup := h.distinct index
  generalize w.db.pushedPayouts index = stored at hpaid hnodup
  have hrows : ∃ rows, storedRows rows = stored ∧ ∀ x ∈ rows, x.1 ∈ w.chain.paid index := by
    clear hnodup
    induction stored with
    | nil => exact ⟨[], rfl, nofun⟩
    | cons r stored ih =>
        obtain ⟨rows, rfl, hrows⟩ := ih fun r' hr' => hpaid r' (List.mem_cons_of_mem _ hr')
        obtain ⟨p, hp, writer, rfl⟩ := hpaid r List.mem_cons_self
        exact ⟨(p, writer) :: rows, rfl, List.forall_mem_cons.mpr ⟨hp, hrows⟩⟩
  obtain ⟨rows, rfl, hrows⟩ := hrows
  rw [wallets_storedRows] at hnodup
  refine ⟨rows, rfl, List.subperm_of_subset hnodup.of_map fun p hp => ?_⟩
  obtain ⟨x, hx, rfl⟩ := List.mem_map.mp hp
  exact hrows x hx

/-- The account that was read is one the chain's came from. -/
def Seen (w : PayoutWorld) (acc : Epoch) : Prop :=
  ∃ e, w.chain.epochs acc.index.toNat = some e ∧ Evolves acc e

/-- A plan stored for the total of an account, or one the account was opened for. -/
def PlanOpened (w : PayoutWorld) (acc : Epoch) (plan : List EpochPlanItem) : Prop :=
  w.db.stored acc.index.toNat = some (plan, acc.totalAmount.toNat) ∨
    ∃ args, (args, plan) ∈ w.chain.opens acc.index.toNat

/-- The window of an epoch starts where the one before it, closed, ended. -/
def Follows (c : Chain) (index : Nat) (startTs : Int) : Prop :=
  ∀ k, index = k + 1 → ∃ e, c.epochs k = some e ∧ e.finalized = true ∧ startTs = e.endTs

theorem Follows.grows {c c' : Chain} {index : Nat} {startTs : Int} (h : Follows c index startTs)
    (hg : c.Grows c') : Follows c' index startTs := by
  intro k hk
  obtain ⟨e, he, hfin, hstart⟩ := h k hk
  obtain ⟨e', he', hev⟩ := hg.epochs k e he
  exact ⟨e', he', hev.finalized hfin, hstart.trans hev.endTs.symm⟩

/-! ### What the cycle promises -/

/-- An `open_epoch`: a whole plan, saved before, over the time since the last epoch. -/
structure OpenPromise (kept : Prop) (w : PayoutWorld) (args : OpenEpochArgs)
    (plan : List EpochPlanItem) :
    Prop where
  valid : ValidPlan plan args.totalAmount.toNat
  follows : Follows w.chain args.index.toNat args.startTs
  saved : kept → w.chain.epochs args.index.toNat = none →
    w.db.stored args.index.toNat = some (plan, args.totalAmount.toNat)

/-- What a push and a finalization go by. -/
structure PlanPromise (kept : Prop) (w : PayoutWorld) (tx : PayoutTx) (acc : Epoch) : Prop where
  read : tx.acc = some acc
  place : acc.index.toNat = tx.payload.index
  seen : Seen w acc
  opened : kept → PlanOpened w acc tx.plan

/-- A `push_payouts`: some of the plan, the wallets found pushed left out; nobody is paid whom a
push that landed or can land pays. -/
structure PushPromise (kept once : Prop) (w : PayoutWorld) (tx : PayoutTx)
    (items : List PayoutItem) : Prop where
  plan : ∃ acc, PlanPromise kept w tx acc
  fresh : once → (tx.plan.map (·.wallet)).Nodup → ∀ p ∈ items.map planItem,
    ∀ q ∈ w.chain.payable tx.payload.index, q.wallet ≠ p.wallet
  items : (items.map planItem).Sublist (remainingOf tx.plan tx.already)

/-- A `finalize_epoch`: what is left of the plan was pushed, or is a leaf under the root, and
these come to the epoch's total. -/
structure FinalizePromise (env : KeeperEnv) (kept fits : Prop) (w : PayoutWorld) (tx : PayoutTx)
    (merkleRoot : Bytes32) (merkleTotal : UInt64) : Prop where
  tree : ∃ tree, epochTree env tx.payload.index tx.leaves = .ok tree ∧ treeRoot tree = merkleRoot
  total : merkleTotal.toNat = planTotal tx.leaves
  already : ∀ wallet ∈ tx.already, wallet ∈ (w.chain.paid tx.payload.index).map (·.wallet)
  pushed : ∃ acc pushed, PlanPromise kept w tx acc ∧
    (pushed ++ tx.leaves).Perm (remainingOf tx.plan tx.already) ∧
    ∀ p ∈ pushed, p ∈ w.chain.paid tx.payload.index
  filled : fits → ∃ e, w.chain.epochs tx.payload.index = some e ∧ (e.finalized = true ∨
    e.totalAmount.toNat ≤ planTotal (w.chain.paid tx.payload.index) + merkleTotal.toNat)

variable {env : KeeperEnv}

def SubmitPromise (R : Regime env) (w : PayoutWorld) (tx : PayoutTx) : Prop :=
  match tx.payload with
  | .openEpoch args => OpenPromise R.kept w args tx.plan
  | .pushPayouts _ items => PushPromise R.kept R.once w tx items
  | .finalizeEpoch _ merkleRoot merkleTotal =>
      FinalizePromise env R.kept R.fits w tx merkleRoot merkleTotal

/-- What the cycle promises at a call. A plan that is saved is the one that the balances and
prices read make. -/
def Promised (R : Regime env) (w : PayoutWorld) : PayoutOp → Prop
  | .submit tx => SubmitPromise R w tx
  | .saveEpochPlan row => row.phase = .planned ∧ row.plan = itemsRead env w.reads row
  | .setEpochPhase index _ => ∃ e, w.chain.epochs index = some e
  | .recordPayout index item => item ∈ w.chain.paid index
  | _ => True

/-- A push or a finalization goes by an account and a plan. -/
theorem exists_planPromise {R : Regime env} {w : PayoutWorld} {tx : PayoutTx}
    (h : SubmitPromise R w tx) (hpays : tx.pays = true) :
    ∃ acc, PlanPromise R.kept w tx acc := by
  unfold SubmitPromise at h
  unfold PayoutTx.pays at hpays
  cases hp : tx.payload with
  | openEpoch args => simp [hp] at hpays
  | pushPayouts i items =>
      rw [hp] at h
      exact h.plan
  | finalizeEpoch i root total =>
      rw [hp] at h
      obtain ⟨acc, pushed, hplan, -⟩ := h.pushed
      exact ⟨acc, hplan⟩

section Effects

variable {R : Regime env} {kept : Prop} {w w' : PayoutWorld} {o : PayoutOp}

theorem mem_paid_of_grows {c c' : Chain} (h : c.Grows c') {index : Nat} {p : EpochPlanItem}
    (hp : p ∈ c.paid index) : p ∈ c'.paid index := (h.paid index).subset hp

/-- An epoch that was there is there. -/
theorem exists_epoch_of_grows {c c' : Chain} (h : c.Grows c') {index : Nat}
    (he : ∃ e, c.epochs index = some e) : ∃ e, c'.epochs index = some e := by
  obtain ⟨e, he⟩ := he
  obtain ⟨e', he', -⟩ := h.epochs index e he
  exact ⟨e', he'⟩

theorem PayoutInv.of_chain (h : PayoutInv kept w) {chain : Chain} (hc : ChainInv chain)
    (hgrows : w.chain.Grows chain)
    (hsigned : ∀ tx ∈ chain.signed, tx ∈ w.chain.signed ∨
      (tx.pays = true → ∃ e, w.chain.epochs tx.payload.index = some e)) :
    PayoutInv kept { w with chain } where
  chain := hc
  pushes r hr := by
    obtain ⟨p, hp, hrow⟩ := h.pushes r hr
    exact ⟨p, mem_paid_of_grows hgrows hp, hrow⟩
  distinct := h.distinct
  signed tx htx hpays := by
    refine exists_epoch_of_grows hgrows ?_
    rcases hsigned tx htx with htx | hseen
    · exact h.signed tx htx hpays
    · exact hseen hpays
  opened hkept row hrow hphase := exists_epoch_of_grows hgrows (h.opened hkept row hrow hphase)

/-- A row of something that was paid. -/
theorem PayoutInv.insertPayout (h : PayoutInv kept w) {index : Nat} {item p : EpochPlanItem}
    (hp : p ∈ w.chain.paid index) (hrow : RowOf item p) :
    PayoutInv kept { w with db := w.db.insertPayout index item } where
  chain := h.chain
  pushes := by
    intro r hr
    rcases PayoutDb.mem_insertPayout hr with hr | rfl
    · exact h.pushes r hr
    · exact ⟨p, hp, hrow⟩
  distinct := PayoutDb.nodup_insertPayout h.distinct
  signed := h.signed
  opened := by
    simp only [PayoutDb.progress_insertPayout]
    exact h.opened

theorem mem_signed_submit {c : Chain} {tx tx' : PayoutTx} (h : tx' ∈ (c.submit tx).signed) :
    tx' ∈ c.signed ∨ tx' = tx := by
  simpa only [Chain.signed, Chain.submit, messages_send, List.mem_append,
    List.mem_singleton] using h

theorem SubmitPromise.signed {tx : PayoutTx} (h : SubmitPromise R w tx) (hpays : tx.pays = true) :
    ∃ e, w.chain.epochs tx.payload.index = some e := by
  obtain ⟨acc, hplan⟩ := exists_planPromise h hpays
  obtain ⟨e, he, -⟩ := hplan.seen
  rw [hplan.place] at he
  exact ⟨e, he⟩

/-- A promised call keeps the invariant. -/
theorem PayoutInv.call (h : PayoutInv kept w) (heff : CallEffect env w o w')
    (hpre : Promised R w o) :
    PayoutInv kept w' := by
  cases heff with
  | same o => exact h
  | noted o reads => exact ⟨h.chain, h.pushes, h.distinct, h.signed, h.opened⟩
  | saved row =>
      refine ⟨h.chain, ?_, ?_, h.signed, ?_⟩
      · intro r hr
        exact h.pushes r (by simpa [PayoutDb.saveEpochPlan] using hr)
      · intro index
        exact h.distinct index
      · intro hkept r hr hphase
        rcases PayoutDb.mem_saveEpochPlan hr with hr | rfl
        · exact h.opened hkept r hr hphase
        · exact absurd hpre.1 hphase
  | phase index phase =>
      refine ⟨h.chain, ?_, ?_, h.signed, ?_⟩
      · intro r hr
        exact h.pushes r (by simpa [PayoutDb.setEpochPhase] using hr)
      · intro index
        exact h.distinct index
      · intro hkept r hr hphase
        obtain ⟨r', hr', rfl⟩ := List.mem_map.mp hr
        by_cases hi : r'.epochIndex = index
        · simp only [hi, if_true]
          exact hpre
        · simp only [hi, if_false] at hphase ⊢
          exact h.opened hkept r' hr' hphase
  | inserted index => exact ⟨h.chain, h.pushes, h.distinct, h.signed, h.opened⟩
  | recorded index item => exact h.insertPayout hpre ⟨.keeper, rfl⟩
  | submitted tx =>
      refine h.of_chain (h.chain.submit tx) (.submit w.chain tx) ?_
      intro tx' htx'
      rcases mem_signed_submit htx' with htx' | rfl
      · exact .inl htx'
      · exact .inr hpre.signed
  | @confirmed tx chain hconfirm =>
      obtain ⟨hc, hgrows⟩ := Chain.confirm_spec hconfirm h.chain
      refine h.of_chain hc hgrows ?_
      intro tx' htx'
      obtain ⟨e, -, rfl⟩ := Chain.confirm_eq hconfirm
      rw [signed_settle] at htx'
      rcases mem_signed_submit htx' with htx' | rfl
      · exact .inl htx'
      · exact .inr hpre.signed

theorem chain_grows_of_effect (h : PayoutInv kept w) (heff : CallEffect env w o w') :
    w.chain.Grows w'.chain := by
  cases heff with
  | submitted tx => exact .submit w.chain tx
  | confirmed hconfirm => exact (Chain.confirm_spec hconfirm h.chain).2
  | _ => exact .refl w.chain

/-- A call that neither saves a plan nor sends a transaction. -/
def PayoutOp.quiet : PayoutOp → Bool
  | .saveEpochPlan _ => false
  | .submit _ => false
  | _ => true

/-- A quiet call lets the world rest. -/
theorem rests_of_effect (h : PayoutInv kept w) (heff : CallEffect env w o w')
    (ho : o.quiet = true) : w.Rests kept w' := by
  refine ⟨⟨chain_grows_of_effect h heff, ?_⟩, ?_⟩
  · intro _ index
    cases heff with
    | saved row => cases ho
    | phase i phase => exact PayoutDb.stored_setEpochPhase
    | recorded i item => exact PayoutDb.stored_congr PayoutDb.progress_insertPayout
    | _ => rfl
  · cases heff with
    | submitted tx => cases ho
    | confirmed hconfirm => cases ho
    | _ => exact .refl _

/-- What happens between two calls keeps the invariant, and lets the world rest. -/
theorem payoutEvent_spec {ev : PayoutEvent} (h : payoutEvent env w ev = some w')
    (hI : PayoutInv kept w)
    (hkept : kept → ∀ rows, ev ≠ .progress rows) :
    PayoutInv kept w' ∧ w.Rests kept w' ∧ w'.reads = w.reads := by
  have hsame : ∀ w' : PayoutWorld, w'.chain = w.chain → w'.db.progress = w.db.progress →
      w.Rests kept w' := by
    intro w' hchain hprogress
    refine ⟨⟨?_, fun _ _ => PayoutDb.stored_congr hprogress⟩, ?_⟩
    · rw [hchain]
      exact .refl _
    · rw [hchain]
      exact .refl _
  cases ev with
  | chain e =>
      obtain ⟨chain, hchain, rfl⟩ := Option.map_eq_some_iff.mp h
      obtain ⟨hc, hgrows, hlater⟩ := chainStep_spec hchain hI.chain
      have hsigned : chain.signed = w.chain.signed := hlater.messages_eq
      refine ⟨hI.of_chain hc hgrows ?_, ⟨⟨hgrows, fun _ _ => rfl⟩, hlater⟩, rfl⟩
      intro tx htx
      exact .inl (hsigned ▸ htx)
  | inputs vault coinPrice candleClose balanceEvents clock =>
      cases h
      exact ⟨⟨hI.chain, hI.pushes, hI.distinct, hI.signed, hI.opened⟩, hsame _ rfl rfl, rfl⟩
  | tokenAccount wallet exists_ =>
      cases h
      exact ⟨⟨hI.chain, hI.pushes, hI.distinct, hI.signed, hI.opened⟩, hsame _ rfl rfl, rfl⟩
  | ingestEpoch index =>
      obtain ⟨-, h⟩ := Option.ite_none_right_eq_some.mp h
      cases h
      exact ⟨⟨hI.chain, hI.pushes, hI.distinct, hI.signed, hI.opened⟩, hsame _ rfl rfl, rfl⟩
  | ingestPayout index item =>
      obtain ⟨hpaid, h⟩ := Option.ite_none_right_eq_some.mp h
      cases h
      exact ⟨hI.insertPayout hpaid ⟨.indexer, rfl⟩, hsame _ rfl PayoutDb.progress_insertPayout, rfl⟩
  | progress rows =>
      cases h
      refine ⟨⟨hI.chain, hI.pushes, hI.distinct, hI.signed, ?_⟩, ⟨⟨.refl _, ?_⟩, .refl _⟩, rfl⟩
      · intro hk
        exact absurd rfl (hkept hk rows)
      · intro hk
        exact absurd rfl (hkept hk rows)

/-- The rows are kept where the regime keeps them. -/
theorem Regime.ne_progress (hk : R.kept) {ev : PayoutEvent} (hok : R.allowed w (.env ev))
    (rows : List EpochProgressRow) : ev ≠ .progress rows := by
  intro hx
  obtain rfl := hx
  exact (R.keeps hk w _ hok).1 rows rfl

end Effects

/-- The keeper's discipline: the invariant and the promises. -/
def payoutDiscipline (R : Regime env) :
    Discipline PayoutOp PayoutOp.Answer PayoutWorld PayoutEvent Unit where
  sys := (payoutMachine env).system
  allowed := R.allowed
  pre := Promised R
  inv := PayoutInv R.kept
  inv_env := fun hI hok h => (payoutEvent_spec h hI fun hk => R.ne_progress hk hok).1
  inv_call := by
    intro w o r w' hI _ hpre h
    obtain ⟨reply, h⟩ := h
    exact hI.call (effect_of_respond h) hpre

end IceMarkets.Keeper
