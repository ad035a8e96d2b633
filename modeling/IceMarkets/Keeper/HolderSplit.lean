import IceMarkets.Keeper.Payouts
import IceMarkets.Sdk.Shares

/-!
# IceMarkets.Keeper.HolderSplit

The plan of an epoch pays the split of its total: where anybody has a balance that passes the
minimum holding, and there is anything to pay, `computePlan` returns a plan, and lists the
positive shares of `computeShares` over these balances, each wallet once and sorted.
-/

namespace IceMarkets.Keeper

open Async Distributor Sdk

section Plans

variable {env : KeeperEnv}

/-! ### The items -/

/-- The items of a plan pay the positive shares of an exact and fair split. -/
structure PaysSplit (env : KeeperEnv) (eligible : List (Pubkey × Nat)) (total : Nat)
    (items : List EpochPlanItem) : Prop where
  valid : ValidPlan items total
  sorted : items.Pairwise fun p q => env.base58 p.wallet ≤ env.base58 q.wallet
  shares : ∃ shares, computeShares eligible total 0 1 0 = some shares ∧
    FairSplit eligible 0 total shares ∧
    ∀ p, p ∈ items ↔ (p.wallet, p.amount) ∈ shares ∧ 0 < p.amount

theorem pairwise_sortByWallet (items : List EpochPlanItem) :
    (sortByWallet env items).Pairwise fun p q => env.base58 p.wallet ≤ env.base58 q.wallet := by
  have : Std.Total fun p q : EpochPlanItem => env.base58 p.wallet ≤ env.base58 q.wallet :=
    ⟨fun _ _ => String.le_total _ _⟩
  have : IsTrans EpochPlanItem fun p q => env.base58 p.wallet ≤ env.base58 q.wallet :=
    ⟨fun _ _ _ => String.le_trans⟩
  exact List.pairwise_insertionSort _ items

/-- With no minimum every balance shares. -/
theorem computeShares_all (eligible : List (Pubkey × Nat)) (total : Nat) :
    computeShares eligible total 0 1 0 = some (splitShares eligible total 0) := by
  simp [computeShares, usdToCoinBaseUnits]

theorem eligibleOf_zero (eligible : List (Pubkey × Nat)) : eligibleOf eligible 0 = eligible := by
  simp [eligibleOf]

theorem mem_planItems {eligible : List (Pubkey × Nat)} {total : Nat} {p : EpochPlanItem} :
    p ∈ planItems env eligible total ↔
      (p.wallet, p.amount) ∈ splitShares eligible total 0 ∧ 0 < p.amount := by
  unfold planItems
  rw [computeShares_all]
  simp only [(perm_sortByWallet _).mem_iff, List.mem_map, List.mem_filter, decide_eq_true_eq]
  constructor
  · intro hx
    obtain ⟨e, he, rfl⟩ := hx
    exact he
  · intro h
    exact ⟨_, h, rfl⟩

theorem sorted_planItems (eligible : List (Pubkey × Nat)) (total : Nat) :
    (planItems env eligible total).Pairwise fun p q =>
      env.base58 p.wallet ≤ env.base58 q.wallet := by
  unfold planItems
  rw [computeShares_all]
  exact pairwise_sortByWallet _

/-- The plan of balances with a positive sum. -/
theorem planItems_pays {eligible : List (Pubkey × Nat)} (h : (eligible.map (·.1)).Nodup)
    (hpos : 0 < balanceSum eligible) (total : Nat) :
    PaysSplit env eligible total (planItems env eligible total) := by
  have hfair : FairSplit eligible 0 total (splitShares eligible total 0) :=
    splitShares_fair h (by rwa [eligibleOf_zero])
  refine ⟨?_, sorted_planItems _ _, _, computeShares_all _ _, hfair, fun _ => mem_planItems⟩
  rcases @planItems_valid env eligible h total with hnil | hvalid
  · -- nothing is paid only where there is nothing to pay
    have hzero : ∀ e ∈ splitShares eligible total 0, e.2 = 0 := by
      intro e he
      by_contra hne
      have hmem : ⟨e.1, e.2⟩ ∈ planItems env eligible total :=
        mem_planItems.mpr ⟨he, Nat.pos_of_ne_zero hne⟩
      simp [hnil] at hmem
    have htotal : total = 0 := by
      rw [← hfair.sum, balanceSum, List.sum_eq_zero_iff]
      intro amount hamount
      obtain ⟨e, he, rfl⟩ := List.mem_map.mp hamount
      exact hzero e he
    rw [hnil]
    exact ⟨List.nodup_nil, List.forall_mem_nil _, htotal.symm⟩
  · exact hvalid

/-- Nobody is paid only where nobody has a balance, or there is nothing to pay. -/
theorem planItems_eq_nil_iff {eligible : List (Pubkey × Nat)} (h : (eligible.map (·.1)).Nodup)
    {total : Nat} : planItems env eligible total = [] ↔ balanceSum eligible = 0 ∨ total = 0 := by
  by_cases hpos : 0 < balanceSum eligible
  · have hvalid := (@planItems_pays env eligible h hpos total).valid
    constructor
    · intro hnil
      right
      rw [← hvalid.total, hnil]
      rfl
    · intro hzero
      refine List.eq_nil_iff_forall_not_mem.mpr fun p hp => ?_
      have htotal := hvalid.total.trans (hzero.resolve_left hpos.ne')
      have hamount := List.sum_eq_zero_iff.mp htotal _ (List.mem_map_of_mem hp)
      exact (hvalid.pos p hp).ne' hamount
  · have hzero : balanceSum eligible = 0 := Nat.eq_zero_of_not_pos hpos
    refine iff_of_true (List.eq_nil_iff_forall_not_mem.mpr fun p hp => ?_) (.inl hzero)
    have hmem := (mem_planItems.mp hp).1
    rw [splitShares_eq_nil (by rwa [eligibleOf_zero])] at hmem
    cases hmem

/-! ### The program -/

/-- What the reads of a plan are answered. -/
structure Answers (answer : ∀ o : PayoutOp, Option o.Answer) (startTs endTs : Int)
    (reads : PlanReads) : Prop where
  events : answer (.getBalanceEvents startTs endTs) = some reads.events
  priorEvents : answer (.getBalanceEventsBefore startTs) = some reads.priorEvents
  candle : answer .getLatestCandleClose = some reads.candle
  coin : answer .getLatestPrice = some reads.coin

/-- Balances of at least the minimum, where there is one and the prices are there. -/
structure Eligible (env : KeeperEnv) (reads : PlanReads) (twab eligible : List (Pubkey × Nat)) :
    Prop where
  sublist : eligible.Sublist twab
  mem : ∀ e ∈ twab, e ∈ eligible ↔
    ∀ close coin minBase, env.minHolding = true → reads.candle = some close →
      reads.coin = some coin → env.minBase close coin = some minBase → minBase ≤ e.2

theorem eligible_eligibleRead (reads : PlanReads) (twab : List (Pubkey × Nat)) :
    Eligible env reads twab (eligibleRead env reads twab) := by
  refine ⟨eligibleRead_sublist env reads twab, fun e he => ?_⟩
  unfold eligibleRead holdersAbove minHoldingBase
  cases hmin : env.minHolding with
  | false => simp [he]
  | true =>
      cases hcandle : reads.candle with
      | none => simp [he]
      | some close =>
          cases hcoin : reads.coin with
          | none => simp [he]
          | some coin =>
              have hiff : (∀ close' coin' minBase, some close = some close' →
                  some coin = some coin' → env.minBase close' coin' = some minBase →
                  minBase ≤ e.2) ↔ ∀ minBase, env.minBase close coin = some minBase →
                    minBase ≤ e.2 := by
                constructor
                · intro h minBase
                  exact h close coin minBase rfl rfl
                · intro h close' coin' minBase hclose hcoin'
                  obtain rfl := Option.some.inj hclose
                  obtain rfl := Option.some.inj hcoin'
                  exact h minBase
              simp only [true_implies, hiff, if_true]
              cases hbase : env.minBase close coin with
              | none => simp [he]
              | some minBase => simp [he]

section Eval

variable {answer : ∀ o : PayoutOp, Option o.Answer} {startTs endTs : Int} {reads : PlanReads}

theorem eval_applyMinHoldingFilter (h : Answers answer startTs endTs reads)
    (twab : List (Pubkey × Nat)) :
    (applyMinHoldingFilter env twab).eval answer = some (eligibleRead env reads twab) := by
  unfold applyMinHoldingFilter eligibleRead
  split_ifs
  · simp [h.candle, h.coin]
  · rfl

/-- A plan is what the answers make. -/
theorem eval_computePlan (h : Answers answer startTs endTs reads) (hwindow : startTs < endTs)
    (total : Nat) :
    (computePlan env startTs endTs total).eval answer =
      some (planRead env reads startTs endTs total) := by
  obtain ⟨twab, htwab⟩ : ∃ twab, computeTwab (reads.priorEvents ++ reads.events)
      { start := startTs, stop := endTs, exclude := env.excludedAddresses } = some twab :=
    ⟨_, if_neg (not_le.mpr hwindow)⟩
  simp only [computePlan, planRead, Prog.eval_bind, Prog.eval_await, Prog.eval_ofOption, h.events,
    h.priorEvents, htwab, Option.bind_some]
  split_ifs with hempty
  · have hnil : eligibleRead env reads twab = [] := by
      have hsub := eligibleRead_sublist env reads twab
      rw [List.isEmpty_iff.mp hempty] at hsub ⊢
      exact List.sublist_nil.mp hsub
    rw [hnil, planOf_nil]
    rfl
  simp only [Prog.eval_bind, eval_applyMinHoldingFilter h, Option.bind_some]
  split_ifs with hnone
  · rw [List.isEmpty_iff.mp hnone, planOf_nil]
    rfl
  · rfl

/-- The plan of a window: some where anybody is paid. -/
theorem planRead_eq {twab : List (Pubkey × Nat)}
    (h : computeTwab (reads.priorEvents ++ reads.events)
      { start := startTs, stop := endTs, exclude := env.excludedAddresses } = some twab)
    (total : Nat) :
    planRead env reads startTs endTs total =
      if balanceSum (eligibleRead env reads twab) = 0 ∨ total = 0 then none
      else some { items := planItems env (eligibleRead env reads twab) total
                  twabTotal := balanceSum (eligibleRead env reads twab) } := by
  have hnodup : ((eligibleRead env reads twab).map (·.1)).Nodup :=
    (nodup_computeTwab h).sublist ((eligibleRead_sublist env reads twab).map _)
  simp only [planRead, h, Option.bind_some, planOf, List.isEmpty_iff, planItems_eq_nil_iff hnodup]
  rfl

end Eval

end Plans

/-- The holder split is exact and fair, and so is every plan made of it: there is one where an
eligible balance is positive and there is anything to pay. -/
theorem holder_split_exact (env : KeeperEnv) :
    (∀ (K : Type) [DecidableEq K] (twab : List (K × Nat)) (total : Nat)
      (minHoldingCents priceUsd8 : Int)
      (coinDecimals : Nat) (minBase : Int), (twab.map (·.1)).Nodup →
      usdToCoinBaseUnits minHoldingCents priceUsd8 coinDecimals = some minBase →
      0 < balanceSum (eligibleOf twab minBase) →
        ∃ shares, computeShares twab total minHoldingCents priceUsd8 coinDecimals = some shares ∧
          FairSplit twab minBase total shares) ∧
    (∀ (eligible : List (Pubkey × Nat)) (total : Nat), (eligible.map (·.1)).Nodup →
      0 < balanceSum eligible → PaysSplit env eligible total (planItems env eligible total)) ∧
    ∀ (answer : ∀ o : PayoutOp, Option o.Answer) (startTs endTs : Int) (reads : PlanReads)
      (total : Nat), Answers answer startTs endTs reads → startTs < endTs →
      ∃ twab eligible, computeTwab (reads.priorEvents ++ reads.events)
          { start := startTs, stop := endTs, exclude := env.excludedAddresses } = some twab ∧
        Eligible env reads twab eligible ∧ (eligible.map (·.1)).Nodup ∧
        (0 < balanceSum eligible → 0 < total → ∃ plan : Plan,
          (computePlan env startTs endTs total).eval answer = some (some plan) ∧
          plan.twabTotal = balanceSum eligible ∧ PaysSplit env eligible total plan.items) ∧
        (balanceSum eligible = 0 ∨ total = 0 →
          (computePlan env startTs endTs total).eval answer = some none) := by
  refine ⟨?_, fun eligible total h hpos => planItems_pays h hpos total, ?_⟩
  · intro K _ twab total cents price decimals minBase h hmin hpos
    refine ⟨_, ?_, splitShares_fair h hpos⟩
    rw [computeShares, hmin]
    rfl
  · intro answer startTs endTs reads total h hwindow
    obtain ⟨twab, htwab⟩ : ∃ twab, computeTwab (reads.priorEvents ++ reads.events)
        { start := startTs, stop := endTs, exclude := env.excludedAddresses } = some twab :=
      ⟨_, if_neg (not_le.mpr hwindow)⟩
    have hnodup : ((eligibleRead env reads twab).map (·.1)).Nodup :=
      (nodup_computeTwab htwab).sublist ((eligibleRead_sublist env reads twab).map _)
    refine ⟨twab, eligibleRead env reads twab, htwab, eligible_eligibleRead reads twab, hnodup,
      ?_, ?_⟩
    · intro hpos htotal
      refine ⟨{ items := planItems env (eligibleRead env reads twab) total
                twabTotal := balanceSum (eligibleRead env reads twab) },
        ?_, rfl, planItems_pays hnodup hpos total⟩
      rw [eval_computePlan h hwindow, planRead_eq htwab, if_neg (by omega)]
    · intro hzero
      rw [eval_computePlan h hwindow, planRead_eq htwab, if_pos hzero]

namespace Sample

open Distributor.Sample

/-- Three holders over the window, from the moment it opens. -/
def holderReads : PlanReads where
  events := [{ wallet := walletA, delta := 5, ts := 0 }, { wallet := walletB, delta := 3, ts := 0 },
    { wallet := walletC, delta := 3, ts := 0 }]
  priorEvents := []
  candle := none
  coin := none

/-- Ten units among eleven: the floors are 4, 2 and 2. -/
def holderTwab : List (Pubkey × Nat) := [(walletA, 5), (walletB, 3), (walletC, 3)]

/-- The answers of the reads of a plan. -/
def planAnswer (reads : PlanReads) : ∀ o : PayoutOp, Option o.Answer
  | .getBalanceEvents _ _ => some reads.events
  | .getBalanceEventsBefore _ => some reads.priorEvents
  | .getLatestCandleClose => some reads.candle
  | .getLatestPrice => some reads.coin
  | _ => none

end Sample

/-- One wallet below the minimum, and three that share ten units. -/
theorem holder_split_exact_sample :
    (∃ shares, computeShares
      ((Bytes32.fill 0x0c, 0) :: Sample.holderTwab) 10 1 100000000 2 = some shares ∧
      FairSplit ((Bytes32.fill 0x0c, 0) :: Sample.holderTwab) 1 10 shares) ∧
    PaysSplit Sample.env Sample.holderTwab 10 (planItems Sample.env Sample.holderTwab 10) ∧
    ∃ plan : Plan, (computePlan Sample.env 0 10 10).eval (Sample.planAnswer Sample.holderReads) =
      some (some plan) ∧ plan.twabTotal = 11 ∧
        PaysSplit Sample.env Sample.holderTwab 10 plan.items := by
  obtain ⟨hsplit, hitems, hplan⟩ := holder_split_exact Sample.env
  refine ⟨?_, ?_, ?_⟩
  · exact hsplit Pubkey _ 10 1 100000000 2 1 (by decide +kernel) (by decide) (by decide +kernel)
  · exact hitems _ 10 (by decide +kernel) (by decide +kernel)
  · obtain ⟨twab, eligible, htwab, heligible, hnodup, hsome, -⟩ :=
      hplan (Sample.planAnswer Sample.holderReads) 0 10 Sample.holderReads 10
        ⟨rfl, rfl, rfl, rfl⟩ (by decide)
    obtain rfl : twab = Sample.holderTwab := Option.some.inj (htwab.symm.trans (by decide +kernel))
    -- without prices everybody is eligible
    have hall : Sample.holderTwab ⊆ eligible := fun e he =>
      (heligible.mem e he).mpr fun _ _ _ _ hclose => nomatch hclose
    have htwabNodup : Sample.holderTwab.Nodup := by decide +kernel
    obtain rfl : eligible = Sample.holderTwab :=
      heligible.sublist.eq_of_length_le (htwabNodup.subperm hall).length_le
    exact hsome (by decide +kernel) (by decide)

end IceMarkets.Keeper
