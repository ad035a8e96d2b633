import IceMarkets.Keeper.Payouts

/-!
# IceMarkets.Keeper.Conditions

What the results about the payout cycle ask of the runs they are about.

A condition is on one step, in the world before it: on the rows of the database, on the balances
and prices the keeper was answered, and on which transactions landed or can still land. None is
on what the cycle makes of these. A `Regime` says which conditions its runs meet.
-/

namespace IceMarkets.Keeper

open Distributor Sdk InFlight Async

/-! ### Plans stay what they were -/

/-- The rows of `epoch_progress` stay what the keeper wrote. -/
def KeepsRows (a : Act PayoutOp Unit PayoutEvent) : Prop := ∀ rows, a ≠ .env (.progress rows)

/-- The items that the balances and prices read make for the window and amount of a row. -/
def itemsRead (env : KeeperEnv) (reads : PlanReads) (row : EpochProgressRow) :
    List EpochPlanItem :=
  ((planRead env reads row.startTs row.endTs row.totalAmount).map (·.items)).getD []

/-- Where a plan is saved for the amount of an `open_epoch` that landed or can land, the balances
and prices read make the plan that one was sent for. -/
def SavesAgree (env : KeeperEnv) (w : PayoutWorld) (a : Act PayoutOp Unit PayoutEvent) : Prop :=
  ∀ row, a = .call (.saveEpochPlan row) → ∀ x ∈ w.chain.openable row.epochIndex,
    x.1.totalAmount.toNat = row.totalAmount → x.2 = itemsRead env w.reads row

/-! ### Plans fill their epochs -/

/-- A plan comes to an amount, names each wallet once, and gives none more than a push of the
epoch that landed or can land. -/
structure Fits (c : Chain) (index total : Nat) (plan : List EpochPlanItem) : Prop where
  nodup : (plan.map (·.wallet)).Nodup
  total : total ≤ planTotal plan
  pushed : ∀ q ∈ c.payable index, ∀ p ∈ plan, p.wallet = q.wallet → p.amount ≤ q.amount

/-- An unfinalized epoch is resumed with a stored plan, or with balances and prices that make one,
that fills it. -/
structure FittingPlans (env : KeeperEnv) (w : PayoutWorld) (a : Act PayoutOp Unit PayoutEvent) :
    Prop where
  stored : ∀ index, a = .call (.getEpochProgress index) → ∀ e, w.chain.epochs index = some e →
    e.finalized = false → ∀ row, w.db.epochProgress index = some row →
      row.totalAmount = e.totalAmount.toNat → Fits w.chain index row.totalAmount row.plan
  computed : ∀ row, a = .call (.saveEpochPlan row) → ∀ e,
    w.chain.epochs row.epochIndex = some e → e.finalized = false → row.startTs = e.startTs →
      row.endTs = e.endTs → row.totalAmount = e.totalAmount.toNat →
        Fits w.chain row.epochIndex row.totalAmount (itemsRead env w.reads row)

/-! ### Pushes are settled -/

/-- The rows of an epoch, and events of other wallets with them, come to what was paid only where
they are of everybody who was: rounding makes up for none that is missing. -/
def RowsTell (rows paid : List EpochPlanItem) : Prop :=
  ∀ more : List EpochPlanItem, more.Subperm paid → (∀ p ∈ more, p.wallet ∉ rows.map (·.wallet)) →
    planTotal rows + planTotal more = planTotal paid →
      ∀ q ∈ paid, q.wallet ∈ rows.map (·.wallet) ∨ q.wallet ∈ more.map (·.wallet)

/-- No push is on its way when an unfinalized epoch is read; a push that is sent again did not
land and will not; and the rows tell who was paid. -/
structure SettledPushes (w : PayoutWorld) (a : Act PayoutOp Unit PayoutEvent) : Prop where
  read : ∀ index, a = .call (.fetchEpoch index) → ∀ e, w.chain.epochs index = some e →
    e.finalized = false → ∀ s ∈ w.chain.txs, s.status = .pending → itemsOf index s.message = []
  retried : ∀ tx, a = .call (.submit tx) → (∃ index items, tx.payload = .pushPayouts index items) →
    ∀ s ∈ w.chain.txs, s.message = tx → s.status = .expired
  rows : ∀ index, a = .call (.getPushedPayouts index) →
    RowsTell (w.db.pushedPayouts index) (w.chain.paid index)

/-- Rows that are exact tell who was paid. -/
theorem rowsTell_of_exact {rows paid : List EpochPlanItem} (hrows : ∀ r ∈ rows, r ∈ paid)
    (hnodup : (rows.map (·.wallet)).Nodup) (hpos : ∀ p ∈ paid, 0 < p.amount) :
    RowsTell rows paid := by
  intro more hmore hfresh htotal q hq
  have hsub : (rows ++ more).Subperm paid := by
    refine List.subperm_ext_iff.mpr fun x hx => ?_
    have hrowsSub : rows.Subperm paid := List.subperm_of_subset hnodup.of_map hrows
    by_cases hin : x ∈ rows
    · have hnot : x ∉ more := fun hxm => hfresh x hxm (List.mem_map_of_mem hin)
      rw [List.count_append, List.count_eq_zero.mpr hnot]
      exact hrowsSub.count_le x
    · rw [List.count_append, List.count_eq_zero.mpr hin, Nat.zero_add]
      exact hmore.count_le x
  have hperm := perm_of_planTotal_eq hsub hpos (by rwa [planTotal_append])
  rw [← List.mem_append, ← List.map_append]
  exact List.mem_map_of_mem (hperm.mem_iff.mpr hq)

/-! ### Regimes -/

/-- The runs a result is about: the steps that are allowed, and the conditions these meet. -/
structure Regime (env : KeeperEnv) where
  allowed : PayoutWorld → Act PayoutOp Unit PayoutEvent → Prop
  kept : Prop
  fits : Prop
  once : Prop
  keeps : kept → ∀ w a, allowed w a → KeepsRows a ∧ SavesAgree env w a
  fitting : fits → ∀ w a, allowed w a → FittingPlans env w a
  settled : once → ∀ w a, allowed w a → SettledPushes w a

end IceMarkets.Keeper
