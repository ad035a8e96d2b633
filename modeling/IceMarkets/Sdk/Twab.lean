import IceMarkets.Lib.InsertionMap
import IceMarkets.Lib.FloorShares
import IceMarkets.Lib.JsNumber
import Mathlib.Data.List.Sort

/-!
# IceMarkets.Sdk.Twab

Time-weighted average balances and the shares they earn (`packages/sdk/src/twab.ts`).

A JavaScript `Map` is the list of its entries in insertion order. Wallets are any type
of keys; timestamps are whole seconds that are numbers, and so are their differences
(`toNumber`) before they become bigints. The comparator sorts by the sign of a
difference, which rounding keeps.
-/

namespace IceMarkets.Sdk

open InsertionMap JsNumber

variable {K : Type} [DecidableEq K]

/-! ### Balances -/

/-- An event of one pool. -/
structure BalanceEvent (K : Type) where
  wallet : K
  delta : Int
  ts : Int
  deriving DecidableEq, Repr

/-- `[start, end)`, and the addresses left out. -/
structure TwabOptions (K : Type) where
  start : Int
  stop : Int
  exclude : List K

/-- The running sums of the loop over one wallet's events. -/
structure Weighing where
  balance : Int
  weightedSum : Int
  cursor : Int
  deriving DecidableEq, Repr

/-- One event inside the window: the previous balance is weighted up to it. -/
def weigh (start : Int) (s : Weighing) (ev : BalanceEvent K) : Weighing :=
  let evTs := max ev.ts start
  if s.cursor < evTs then
    { balance := s.balance + ev.delta
      weightedSum := s.weightedSum + s.balance * toNumber (evTs - s.cursor)
      cursor := evTs }
  else { s with balance := s.balance + ev.delta }

/-- `weightedSum` of one wallet after the loop. -/
def weightedSum (start stop : Int) (walletEvents : List (BalanceEvent K)) : Int :=
  let sorted := walletEvents.insertionSort (·.ts ≤ ·.ts)
  let before := sorted.takeWhile (·.ts < start)
  let inside := (sorted.dropWhile (·.ts < start)).takeWhile (·.ts < stop)
  let s := inside.foldl (weigh start)
    { balance := (before.map (·.delta)).sum, weightedSum := 0, cursor := start }
  if s.cursor < stop then s.weightedSum + s.balance * toNumber (stop - s.cursor)
  else s.weightedSum

/-- `byWallet`. -/
def byWallet (events : List (BalanceEvent K)) (exclude : List K) :
    List (K × List (BalanceEvent K)) :=
  fold (·.wallet) (fun ev evs => evs.getD [] ++ [ev]) (events.filter (·.wallet ∉ exclude)) []

/-- `computeTwab`; it throws on an empty window. -/
def computeTwab (events : List (BalanceEvent K)) (opts : TwabOptions K) : Option (List (K × Nat)) :=
  if opts.stop ≤ opts.start then none
  else some ((byWallet events opts.exclude).filterMap fun (wallet, evs) =>
    let w := weightedSum opts.start opts.stop evs
    if 0 < w then some (wallet, (w / toNumber (opts.stop - opts.start)).toNat) else none)

/-! ### Shares -/

/-- `usdToCoinBaseUnits`, from the cents the dollar amount rounds to. -/
def usdToCoinBaseUnits (usdCents priceUsd8 : Int) (coinDecimals : Nat) : Option Int :=
  if priceUsd8 ≤ 0 then none
  else some ((usdCents * 100000000 * 10 ^ coinDecimals).tdiv (100 * priceUsd8))

/-- The first of the largest balances. -/
def largestWallet (eligible : List (K × Nat)) (first : K) : K :=
  (eligible.foldl (fun (best : K × Int) e => if best.2 <
    (e.2 : Int) then (e.1, (e.2 : Int)) else best)
    (first, -1)).1

/-- `shares` after the loop. -/
def floorShares (eligible : List (K × Nat)) (totalAmount twabTotal : Nat) : List (K × Nat) :=
  fold (·.1) (fun e _ => totalAmount * e.2 / twabTotal) eligible []

/-- Pro-rata shares of `totalAmount` among the balances of at least `minHoldingBase`; the
remainder goes to the largest. -/
def splitShares (twab : List (K × Nat)) (totalAmount : Nat) (minHoldingBase : Int) :
    List (K × Nat) :=
  let eligible := twab.filter (minHoldingBase ≤ ·.2)
  let twabTotal := (eligible.map (·.2)).sum
  match eligible with
  | [] => []
  | (first, _) :: _ =>
      if twabTotal = 0 then []
      else
        let shares := floorShares eligible totalAmount twabTotal
        let remainder := totalAmount - (shares.map (·.2)).sum
        if 0 < remainder then
          upsert (largestWallet eligible first) (fun v => v.getD 0 + remainder) shares
        else shares

/-- `computeShares`. -/
def computeShares (twab : List (K × Nat)) (totalAmount : Nat) (minHoldingCents priceUsd8 : Int)
    (coinDecimals : Nat) : Option (List (K × Nat)) :=
  (usdToCoinBaseUnits minHoldingCents priceUsd8 coinDecimals).map (splitShares twab totalAmount)

/-! ### Wallets are listed once -/

theorem nodup_computeTwab {events : List (BalanceEvent K)} {opts : TwabOptions K}
    {twab : List (K × Nat)} (h : computeTwab events opts = some twab) : (twab.map (·.1)).Nodup := by
  unfold computeTwab at h
  split_ifs at h
  cases h
  have hkeys : ((byWallet events opts.exclude).map (·.1)).Nodup := nodup_fold _ _ _ (by simp)
  refine hkeys.sublist ?_
  generalize byWallet events opts.exclude = l
  induction l with
  | nil => exact List.Sublist.refl _
  | cons e l ih =>
      simp only [List.filterMap_cons]
      by_cases hw : 0 < weightedSum opts.start opts.stop e.2
      · simp only [hw, if_true]
        exact ih.cons_cons _
      · simp only [hw, if_false]
        exact ih.cons _

/-! ### The split is exact -/

section Split

variable {m : List (K × Nat)} {k : K}

theorem sum_upsert_add (k : K) (x : Nat) (m : List (K × Nat)) :
    ((upsert k (fun v => v.getD 0 + x) m).map (·.2)).sum = (m.map (·.2)).sum + x := by
  induction m with
  | nil => simp [upsert]
  | cons e m ih =>
      unfold upsert
      by_cases h : e.1 = k
      · rw [if_pos h]
        simp
        omega
      · rw [if_neg h]
        simp only [List.map_cons, List.sum_cons, ih]
        omega

theorem upsert_of_notMem {f : Option Nat → Nat} (h : k ∉ m.map (·.1)) :
    upsert k f m = m ++ [(k, f none)] := by
  induction m with
  | nil => rfl
  | cons e m ih =>
      rw [List.map_cons, List.mem_cons, not_or] at h
      unfold upsert
      rw [if_neg (Ne.symm h.1), ih h.2]
      rfl

/-- With distinct wallets the loop sets each share once. -/
theorem floorShares_eq {eligible : List (K × Nat)} (h : (eligible.map (·.1)).Nodup) (F D : Nat) :
    floorShares eligible F D = eligible.map fun e => (e.1, F * e.2 / D) := by
  have hgen : ∀ (l acc : List (K × Nat)), (acc.map (·.1) ++ l.map (·.1)).Nodup →
      fold (·.1) (fun e _ => F * e.2 / D) l acc = acc ++ l.map fun e => (e.1, F * e.2 / D) := by
    intro l
    induction l with
    | nil => simp [fold]
    | cons e l ih =>
        intro acc hnodup
        have hnot : e.1 ∉ acc.map (·.1) := fun hmem =>
          (List.nodup_append.mp hnodup).2.2 _ hmem _ (by simp) rfl
        have hrest := ih (acc ++ [(e.1, F * e.2 / D)]) (by simpa using hnodup)
        unfold fold at hrest ⊢
        rw [List.foldl_cons, upsert_of_notMem hnot, hrest]
        simp
  exact hgen eligible [] (by simpa using h)

theorem sum_floorShares {eligible : List (K × Nat)} (h : (eligible.map (·.1)).Nodup) (F D : Nat) :
    ((floorShares eligible F D).map (·.2)).sum =
      (FloorShares.shares F D (eligible.map (·.2))).sum := by
  rw [floorShares_eq h]
  simp [FloorShares.shares, Function.comp_def]

/-- Shares add up to the amount, unless nobody is eligible. -/
theorem sum_splitShares {twab : List (K × Nat)} (h : (twab.map (·.1)).Nodup) {total : Nat}
    {minBase : Int} :
    splitShares twab total minBase = [] ∨
      ((splitShares twab total minBase).map (·.2)).sum = total := by
  have hnodup : ((twab.filter (minBase ≤ ·.2)).map (·.1)).Nodup :=
    h.sublist (List.filter_sublist.map _)
  unfold splitShares
  simp only
  cases he : twab.filter (minBase ≤ ·.2) with
  | nil => exact Or.inl rfl
  | cons e l =>
      rw [he] at hnodup
      by_cases h0 : ((e :: l).map (·.2)).sum = 0
      · left
        simp only [h0, if_true]
      right
      simp only [h0, if_false]
      have hle := FloorShares.sum_shares_le (F := total) (Nat.pos_of_ne_zero h0) le_rfl
      rw [← sum_floorShares hnodup] at hle
      split_ifs with hrem
      · rw [sum_upsert_add]
        omega
      · omega

theorem nodup_splitShares (twab : List (K × Nat)) (total : Nat) (minBase : Int) :
    ((splitShares twab total minBase).map (·.1)).Nodup := by
  unfold splitShares
  simp only
  cases twab.filter (minBase ≤ ·.2) with
  | nil => simp
  | cons e l =>
      have hfloor : ((floorShares (e :: l) total ((e :: l).map (·.2)).sum).map (·.1)).Nodup :=
        nodup_fold _ _ _ (by simp)
      simp only
      split_ifs
      · simp
      · exact nodup_upsert hfloor
      · exact hfloor

end Split

end IceMarkets.Sdk
