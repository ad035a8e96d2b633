import IceMarkets.Indexer.Swaps
import Mathlib.Algebra.Order.Group.Unbundled.Int

/-!
# IceMarkets.Indexer.SwapDecoding

`decodeSwaps` finds the swaps there are, by the net movements of the vaults.

A swap shows as a pool's two vaults moving in opposite directions, on the curve or where
it migrated to, or as the first buy with which a curve was created: both vaults grew and
others than the vaults received memecoin. What is emitted for a pool depends on no other
pool.
-/

namespace IceMarkets.Indexer

open InsertionMap
open scoped BigOperators

/-! ### What moved -/

/-- The vaults of a pool at a venue: base and quote. -/
def PoolRow.vaultsAt (pool : PoolRow) : Venue → Option String × Option String
  | .dbc => (pool.baseVault, pool.quoteVault)
  | .damm => (pool.dammBaseVault, pool.dammQuoteVault)

/-- The net change of the base vault. -/
def baseChange (tx : SwapTx) (pool : PoolRow) (venue : Venue) : Int :=
  sumFor tx.tokenDeltas (pool.vaultsAt venue).1

/-- The net change of the quote vault. -/
def quoteChange (tx : SwapTx) (pool : PoolRow) (venue : Venue) : Int :=
  sumFor tx.tokenDeltas (pool.vaultsAt venue).2

/-- The net memecoin change of an owner, outside the pool's vaults. -/
def ownerChange (tx : SwapTx) (pool : PoolRow) (owner : String) : Int :=
  (((tx.tokenDeltas.filter (pool.Counts ·)).filter (·.owner = owner)).map (·.delta)).sum

/-- The memecoin that reached owners outside the vaults. -/
def reached (tx : SwapTx) (pool : PoolRow) : Int :=
  ∑ owner ∈ (tx.tokenDeltas.map (·.owner)).toFinset, max 0 (ownerChange tx pool owner)

/-- The vaults moved by net amounts of opposite sign. -/
def Opposite (tx : SwapTx) (pool : PoolRow) (venue : Venue) : Prop :=
  (baseChange tx pool venue < 0 ∧ 0 < quoteChange tx pool venue) ∨
    (0 < baseChange tx pool venue ∧ quoteChange tx pool venue < 0)

instance (tx : SwapTx) (pool : PoolRow) (venue : Venue) : Decidable (Opposite tx pool venue) :=
  inferInstanceAs (Decidable (_ ∨ _))

/-- Both vaults of the curve grew, and memecoin reached others. -/
structure Created (tx : SwapTx) (pool : PoolRow) : Prop where
  base : 0 < baseChange tx pool .dbc
  quote : 0 < quoteChange tx pool .dbc
  reached : 0 < reached tx pool

/-- An owner's change in the direction of a trade. -/
def InDirection (side : Side) (change : Int) : Prop :=
  match side with
  | .buy => 0 < change
  | .sell => change < 0

/-- An owner whose memecoin moved most in the direction of the trade, or the fee payer
where nobody's did. -/
def TraderOf (tx : SwapTx) (pool : PoolRow) (side : Side) (trader : String) : Prop :=
  (InDirection side (ownerChange tx pool trader) ∧
    ∀ owner, InDirection side (ownerChange tx pool owner) →
      |ownerChange tx pool owner| ≤ |ownerChange tx pool trader|) ∨
  (∀ owner, ¬ InDirection side (ownerChange tx pool owner)) ∧ trader = tx.feePayer

/-- A swap of a pool: an exchange with its vaults, or the purchase it was created with. -/
structure IsSwap (tx : SwapTx) (pool : PoolRow) (s : DecodedSwap) : Prop where
  ofPool : s.pool = pool.dbcPool
  exchanged : Opposite tx pool s.venue → s.base = |baseChange tx pool s.venue| ∧
    s.quote = |quoteChange tx pool s.venue| ∧ (s.side = .buy ↔ baseChange tx pool s.venue < 0)
  created : ¬ Opposite tx pool s.venue → s.venue = .dbc ∧ Created tx pool ∧ s.side = .buy ∧
    s.base = reached tx pool ∧ s.quote = quoteChange tx pool .dbc
  base_pos : 0 < s.base
  quote_pos : 0 < s.quote
  trader : TraderOf tx pool s.side s.trader

/-! ### Owners -/

section Owners

variable {tx : SwapTx} {pool : PoolRow}

theorem nodup_owners (tx : SwapTx) (pool : PoolRow) :
    ((ownerBaseDeltas tx.toNormalizedTx pool.toPoolRef).map Prod.fst).Nodup :=
  (nodup_fold _ _ _ (by simp)).sublist (List.filter_sublist.map _)

/-- The entries are the owners whose change is not zero. -/
theorem mem_owners {owner : String} {d : Int} :
    (owner, d) ∈ ownerBaseDeltas tx.toNormalizedTx pool.toPoolRef ↔
      d = ownerChange tx pool owner ∧ d ≠ 0 := by
  have hfold : ((fold (·.owner) (fun (d : TokenDelta) (v : Option Int) => v.getD 0 + d.delta)
      (tx.tokenDeltas.filter (pool.Counts ·)) []).map Prod.fst).Nodup := nodup_fold _ _ _ (by simp)
  have hget : ((ownerBaseDeltas tx.toNormalizedTx pool.toPoolRef).lookup owner).getD 0 =
      ownerChange tx pool owner := by
    unfold ownerBaseDeltas
    rw [getD_lookup_filter_ne_zero hfold, getD_lookup_fold_add]
    rfl
  constructor
  · intro h
    rw [(mem_iff_lookup (nodup_owners tx pool)).mp h, Option.getD_some] at hget
    have hne := (List.mem_filter.mp h).2
    exact ⟨hget, by simpa using hne⟩
  · intro hx
    obtain ⟨rfl, hne⟩ := hx
    rw [mem_iff_lookup (nodup_owners tx pool)]
    cases hl : (ownerBaseDeltas tx.toNormalizedTx pool.toPoolRef).lookup owner with
    | none =>
        rw [hl] at hget
        exact absurd hget.symm hne
    | some v =>
        rw [hl] at hget
        exact congrArg some hget

theorem InDirection.ne_zero {side : Side} {d : Int} (h : InDirection side d) : d ≠ 0 := by
  cases side with
  | buy => exact ne_of_gt h
  | sell => exact ne_of_lt h

/-- One owner of the loop. -/
theorem pickOwner_eq (side : Side) (best : Option String × Int) (owner : String × Int) :
    (InDirection side owner.2 ∧ best.2 < |owner.2| ∧
      pickOwner side best owner = (some owner.1, |owner.2|)) ∨
      ((InDirection side owner.2 → |owner.2| ≤ best.2) ∧ pickOwner side best owner = best) := by
  have habs : (if owner.2 < 0 then -owner.2 else owner.2) = |owner.2| := by
    split_ifs with h
    · rw [abs_of_neg h]
    · rw [abs_of_nonneg (not_lt.mp h)]
  unfold pickOwner
  simp only [habs]
  split_ifs with hskip hlt
  · right
    refine ⟨fun h => ?_, rfl⟩
    cases side with
    | buy => simp [InDirection] at hskip h; omega
    | sell => simp [InDirection] at hskip h; omega
  · left
    refine ⟨?_, hlt, rfl⟩
    cases side with
    | buy => simpa [InDirection] using hskip
    | sell => simpa [InDirection] using hskip
  · exact Or.inr ⟨fun _ => not_lt.mp hlt, rfl⟩

/-- The loop ends where it started or at an owner, and nobody moved more. -/
theorem foldl_pickOwner (side : Side) (owners : List (String × Int)) (best : Option String × Int) :
    best.2 ≤ (owners.foldl (pickOwner side) best).2 ∧
      (∀ o ∈ owners, InDirection side o.2 → |o.2| ≤ (owners.foldl (pickOwner side) best).2) ∧
      (owners.foldl (pickOwner side) best = best ∨
        ∃ o ∈ owners, InDirection side o.2 ∧
          owners.foldl (pickOwner side) best = (some o.1, |o.2|)) := by
  induction owners generalizing best with
  | nil => simp
  | cons o owners ih =>
      obtain ⟨hle, hall, hend⟩ := ih (pickOwner side best o)
      rw [List.foldl_cons]
      rcases pickOwner_eq side best o with ⟨hdir, hlt, heq⟩ | ⟨hmax, heq⟩
      · rw [heq] at hle hall hend ⊢
        refine ⟨hlt.le.trans hle, List.forall_mem_cons.mpr ⟨fun _ => hle, hall⟩, Or.inr ?_⟩
        rcases hend with hend | ⟨o', ho', hdir', hend⟩
        · exact ⟨o, List.mem_cons_self, hdir, hend⟩
        · exact ⟨o', List.mem_cons_of_mem _ ho', hdir', hend⟩
      · rw [heq] at hle hall hend ⊢
        refine ⟨hle, List.forall_mem_cons.mpr ⟨fun h => (hmax h).trans hle, hall⟩,
          hend.imp_right ?_⟩
        exact fun ⟨o', ho', h⟩ => ⟨o', List.mem_cons_of_mem _ ho', h⟩

/-- The trader moved most in the direction of the trade. -/
theorem traderOf_pickTrader (tx : SwapTx) (pool : PoolRow) (side : Side) :
    TraderOf tx pool side
      (pickTrader (ownerBaseDeltas tx.toNormalizedTx pool.toPoolRef) side tx.feePayer) := by
  obtain ⟨-, hall, hend⟩ :=
    foldl_pickOwner side (ownerBaseDeltas tx.toNormalizedTx pool.toPoolRef) (none, 0)
  have hmax : ∀ owner, InDirection side (ownerChange tx pool owner) → |ownerChange tx pool owner| ≤
      ((ownerBaseDeltas tx.toNormalizedTx pool.toPoolRef).foldl (pickOwner side) (none, 0)).2 :=
    fun owner h => hall _ (mem_owners.mpr ⟨rfl, h.ne_zero⟩) h
  unfold pickTrader
  rcases hend with hend | ⟨o, ho, hdir, hend⟩
  · right
    rw [hend] at hmax ⊢
    refine ⟨fun owner h => ?_, rfl⟩
    exact h.ne_zero (abs_nonpos_iff.mp (hmax owner h))
  · left
    obtain ⟨hchange, -⟩ := mem_owners.mp ho
    rw [hend] at hmax ⊢
    rw [hchange] at hdir hmax
    exact ⟨hdir, hmax⟩

theorem sum_filter_pos (l : List Int) : (l.filter (0 < ·)).sum = (l.map (max 0)).sum := by
  induction l with
  | nil => rfl
  | cons d l ih =>
      by_cases h : 0 < d
      · simp [h, h.le, ih]
      · simp [h, not_lt.mp h, ih]

/-- What the loop adds up is what reached others than the vaults. -/
theorem received_eq (tx : SwapTx) (pool : PoolRow) :
    (((ownerBaseDeltas tx.toNormalizedTx pool.toPoolRef).map (·.2)).filter (0 < ·)).sum =
      reached tx pool := by
  have hkeys : ∀ k ∈ (ownerBaseDeltas tx.toNormalizedTx pool.toPoolRef).map Prod.fst,
      k ∈ (tx.tokenDeltas.map (·.owner)).toFinset := by
    intro k hk
    have hk := (List.filter_sublist.map Prod.fst).subset hk
    rw [mem_keys_fold] at hk
    obtain ⟨d, hd, rfl⟩ | hnil := hk
    · rw [List.mem_toFinset]
      exact List.mem_map_of_mem (List.mem_of_mem_filter hd)
    · cases hnil
  rw [sum_filter_pos, List.map_map]
  refine (sum_entries (nodup_owners tx pool) hkeys fun _ d => max 0 d).trans ?_
  refine Finset.sum_congr rfl fun owner _ => ?_
  cases hl : (ownerBaseDeltas tx.toNormalizedTx pool.toPoolRef).lookup owner with
  | some d =>
      obtain ⟨rfl, -⟩ := mem_owners.mp ((mem_iff_lookup (nodup_owners tx pool)).mpr hl)
      rfl
  | none =>
      have hzero : ownerChange tx pool owner = 0 := by
        by_contra hne
        have := (mem_iff_lookup (nodup_owners tx pool)).mp (mem_owners.mpr ⟨rfl, hne⟩)
        rw [hl] at this
        cases this
      rw [hzero]
      rfl

end Owners

/-! ### One pool at one venue -/

section Venue

variable {tx : SwapTx} {pool : PoolRow} {venue : Venue} {c : Classified}

theorem classify_eq_some {b q : Int} :
    classify b q = some c ↔ ((b < 0 ∧ 0 < q) ∨ (0 < b ∧ q < 0)) ∧
      c.base = |b| ∧ c.quote = |q| ∧ (c.side = .buy ↔ b < 0) := by
  unfold classify
  obtain ⟨side, base, quote⟩ := c
  split_ifs with hbuy hsell
  · rw [Option.some.injEq, Classified.mk.injEq, abs_of_neg hbuy.1, abs_of_pos hbuy.2]
    constructor
    · intro hx
      obtain ⟨rfl, rfl, rfl⟩ := hx
      exact ⟨Or.inl hbuy, rfl, rfl, by simp [hbuy.1]⟩
    · intro hx
      obtain ⟨-, hbase, hquote, hside⟩ := hx
      exact ⟨(hside.mpr hbuy.1).symm, hbase.symm, hquote.symm⟩
  · rw [Option.some.injEq, Classified.mk.injEq, abs_of_pos hsell.1, abs_of_neg hsell.2]
    constructor
    · intro hx
      obtain ⟨rfl, rfl, rfl⟩ := hx
      exact ⟨Or.inr hsell, rfl, rfl, by simp [hsell.1.le]⟩
    · intro hx
      obtain ⟨-, hbase, hquote, hside⟩ := hx
      have hne : side ≠ .buy := fun h => by have := hside.mp h; omega
      refine ⟨?_, hbase.symm, hquote.symm⟩
      cases side with
      | buy => exact absurd rfl hne
      | sell => rfl
  · constructor
    · nofun
    · intro hx
      obtain ⟨h | h, -⟩ := hx
      · exact absurd h hbuy
      · exact absurd h hsell

theorem classify_eq_none {b q : Int} :
    classify b q = none ↔ ¬ ((b < 0 ∧ 0 < q) ∨ (0 < b ∧ q < 0)) := by
  unfold classify
  split_ifs with hbuy hsell
  · simp [hbuy]
  · simp [hsell]
  · simp [hbuy, hsell]

/-- What is found for a pool at a venue. -/
def classifyAt (tx : SwapTx) (pool : PoolRow) : Venue → Option Classified
  | .dbc => classifyDbc tx pool
  | .damm => classifyDamm tx pool

theorem sumFor_of_not_isSet {deltas : List TokenDelta} {v : Option String} (h : isSet v = false) :
    sumFor deltas v = 0 := by
  cases v with
  | none => rfl
  | some account =>
      have hempty : account = "" := by simpa [isSet] using h
      simp [sumFor, hempty]

/-- A vault that is not set did not move, so the check for it decides nothing. -/
theorem classifyDamm_eq (tx : SwapTx) (pool : PoolRow) :
    classifyDamm tx pool = classify (baseChange tx pool .damm) (quoteChange tx pool .damm) := by
  unfold classifyDamm
  split_ifs with h
  · rfl
  · have hzero : baseChange tx pool .damm = 0 ∨ quoteChange tx pool .damm = 0 := by
      simp only [Bool.and_eq_true, not_and_or, Bool.not_eq_true] at h
      exact h.imp sumFor_of_not_isSet sumFor_of_not_isSet
    cases hc : classify (baseChange tx pool .damm) (quoteChange tx pool .damm) with
    | none => rfl
    | some c =>
        have := (classify_eq_some.mp hc).1
        omega

theorem classifyDbc_eq (tx : SwapTx) (pool : PoolRow) :
    classifyDbc tx pool = match classify (baseChange tx pool .dbc) (quoteChange tx pool .dbc) with
      | some c => some c
      | none =>
          if 0 < baseChange tx pool .dbc ∧ 0 < quoteChange tx pool .dbc then
            if 0 < reached tx pool then
              some { side := .buy, base := reached tx pool, quote := quoteChange tx pool .dbc }
            else none
          else none := by
  unfold classifyDbc
  simp only [received_eq]
  rfl

/-- What is found is an exchange, or on the curve its creation. -/
theorem classifyAt_eq_some :
    classifyAt tx pool venue = some c ↔
      (Opposite tx pool venue ∧ c.base = |baseChange tx pool venue| ∧
        c.quote = |quoteChange tx pool venue| ∧
        (c.side = .buy ↔ baseChange tx pool venue < 0)) ∨
      (¬ Opposite tx pool venue ∧ venue = .dbc ∧ Created tx pool ∧ c.side = .buy ∧
        c.base = reached tx pool ∧ c.quote = quoteChange tx pool .dbc) := by
  cases venue with
  | damm =>
      rw [classifyAt, classifyDamm_eq, classify_eq_some]
      simp [Opposite]
  | dbc =>
      rw [classifyAt, classifyDbc_eq]
      cases hc : classify (baseChange tx pool .dbc) (quoteChange tx pool .dbc) with
      | some c' =>
          have hopposite : Opposite tx pool .dbc := (classify_eq_some.mp hc).1
          simp only [hopposite, not_true_eq_false, false_and, or_false, true_and]
          rw [← hc, classify_eq_some]
          exact and_iff_right hopposite
      | none =>
          have hnot : ¬ Opposite tx pool .dbc := classify_eq_none.mp hc
          simp only [hnot, false_and, false_or, not_false_eq_true, true_and]
          split_ifs with hgrew hreached
          · obtain ⟨side, base, quote⟩ := c
            rw [Option.some.injEq, Classified.mk.injEq]
            constructor
            · intro hx
              obtain ⟨rfl, rfl, rfl⟩ := hx
              exact ⟨⟨hgrew.1, hgrew.2, hreached⟩, rfl, rfl, rfl⟩
            · intro hx
              obtain ⟨-, hside, hbase, hquote⟩ := hx
              exact ⟨hside.symm, hbase.symm, hquote.symm⟩
          · constructor
            · nofun
            · exact fun h => absurd h.1.reached hreached
          · constructor
            · nofun
            · exact fun h => absurd ⟨h.1.base, h.1.quote⟩ hgrew

theorem Created.not_opposite (h : Created tx pool) : ¬ Opposite tx pool .dbc := by
  have hbase := h.base
  have hquote := h.quote
  unfold Opposite
  omega

/-- Vaults that moved as those of a swap do are found. -/
theorem exists_classifyAt (h : Opposite tx pool venue ∨ venue = .dbc ∧ Created tx pool) :
    ∃ c, classifyAt tx pool venue = some c := by
  rcases h with h | ⟨rfl, h⟩
  · refine ⟨{ side := if baseChange tx pool venue < 0 then .buy else .sell
              base := |baseChange tx pool venue|, quote := |quoteChange tx pool venue| }, ?_⟩
    exact classifyAt_eq_some.mpr (Or.inl ⟨h, rfl, rfl, by split_ifs <;> simp [*]⟩)
  · refine ⟨{ side := .buy, base := reached tx pool, quote := quoteChange tx pool .dbc }, ?_⟩
    exact classifyAt_eq_some.mpr (Or.inr ⟨h.not_opposite, rfl, h, rfl, rfl, rfl⟩)

theorem isSwap_decodedSwap (h : classifyAt tx pool venue = some c) :
    IsSwap tx pool (decodedSwap tx pool venue c) := by
  have hpos : 0 < c.base ∧ 0 < c.quote := by
    cases venue with
    | dbc => exact classifyDbc_pos h
    | damm => exact classifyDamm_pos h
  have hcases := classifyAt_eq_some.mp h
  exact {
    ofPool := rfl
    exchanged := fun hopposite => by
      rcases hcases with ⟨-, hexchange⟩ | ⟨hnot, -⟩
      · exact hexchange
      · exact absurd hopposite hnot
    created := fun hnot => by
      rcases hcases with ⟨hopposite, -⟩ | ⟨-, hcreated⟩
      · exact absurd hopposite hnot
      · exact hcreated
    base_pos := hpos.1
    quote_pos := hpos.2
    trader := traderOf_pickTrader tx pool c.side }

theorem mem_poolSwaps_iff {s : DecodedSwap} :
    s ∈ poolSwaps tx pool ↔ ∃ venue c, classifyAt tx pool venue = some c ∧
      s = decodedSwap tx pool venue c := by
  unfold poolSwaps
  simp only [List.mem_append, Option.mem_toList, Option.map_eq_some_iff]
  constructor
  · intro h
    rcases h with ⟨c, hc, rfl⟩ | ⟨c, hc, rfl⟩
    · exact ⟨.dbc, c, hc, rfl⟩
    · exact ⟨.damm, c, hc, rfl⟩
  · intro h
    obtain ⟨venue, c, hc, rfl⟩ := h
    cases venue with
    | dbc => exact Or.inl ⟨c, hc, rfl⟩
    | damm => exact Or.inr ⟨c, hc, rfl⟩

/-- A pool has one swap at most at each venue. -/
theorem filter_poolSwaps (tx : SwapTx) (pool : PoolRow) (venue : Venue) :
    (poolSwaps tx pool).filter (·.venue = venue) =
      ((classifyAt tx pool venue).map (decodedSwap tx pool venue)).toList := by
  unfold poolSwaps
  rw [List.filter_append]
  cases venue with
  | dbc =>
      cases classifyDamm tx pool <;> cases h : classifyDbc tx pool <;>
        simp [classifyAt, decodedSwap, h]
  | damm =>
      cases h : classifyDamm tx pool <;> cases classifyDbc tx pool <;>
        simp [classifyAt, decodedSwap, h]

end Venue

/-! ### All pools -/

section Pools

variable {tx : SwapTx} {pools : List PoolRow} {pool : PoolRow}

/-- What is emitted for a pool is what that pool alone has. -/
theorem filter_decodeSwaps (hok : tx.failed = false) (hnodup : (pools.map (·.dbcPool)).Nodup)
    (h : pool ∈ pools) :
    (decodeSwaps tx pools).filter (·.pool = pool.dbcPool) = poolSwaps tx pool := by
  have hblocks : ∀ p ∈ pools, ∀ s ∈ poolSwaps tx p,
      decide (s.pool = pool.dbcPool) = decide (p.dbcPool = pool.dbcPool) :=
    fun p _ s hs => by rw [(mem_poolSwaps hs).1]
  rw [decodeSwaps, if_neg (by simp [hok]), filter_flatMap_eq hblocks, filter_dbcPool hnodup h,
    List.flatMap_singleton]

end Pools

/-- Swap decoding is sound and complete on vault movements, and local to each pool. -/
theorem decodeSwaps_exact {tx : SwapTx} {pools : List PoolRow} (hok : tx.failed = false)
    (hnodup : (pools.map (·.dbcPool)).Nodup) :
    (∀ s ∈ decodeSwaps tx pools, ∃ pool ∈ pools, IsSwap tx pool s) ∧
    (∀ pool ∈ pools, ∀ venue, Opposite tx pool venue ∨ venue = .dbc ∧ Created tx pool →
      ∃ s, (decodeSwaps tx pools).filter (fun s => s.pool = pool.dbcPool ∧ s.venue = venue) = [s] ∧
        IsSwap tx pool s) ∧
    ∀ pool ∈ pools, ∀ pools' : List PoolRow, (pools'.map (·.dbcPool)).Nodup → pool ∈ pools' →
      (decodeSwaps tx pools').filter (·.pool = pool.dbcPool) =
        (decodeSwaps tx pools).filter (·.pool = pool.dbcPool) := by
  refine ⟨?_, ?_, ?_⟩
  · intro s hs
    rw [decodeSwaps, if_neg (by simp [hok]), List.mem_flatMap] at hs
    obtain ⟨pool, hpool, hs⟩ := hs
    obtain ⟨venue, c, hc, rfl⟩ := mem_poolSwaps_iff.mp hs
    exact ⟨pool, hpool, isSwap_decodedSwap hc⟩
  · intro pool hpool venue hmoved
    obtain ⟨c, hc⟩ := exists_classifyAt hmoved
    refine ⟨decodedSwap tx pool venue c, ?_, isSwap_decodedSwap hc⟩
    have hboth : (decodeSwaps tx pools).filter (fun s => s.pool = pool.dbcPool ∧ s.venue = venue) =
        ((decodeSwaps tx pools).filter (·.pool = pool.dbcPool)).filter (·.venue = venue) := by
      rw [List.filter_filter]
      refine List.filter_congr fun s _ => ?_
      rw [Bool.decide_and, Bool.and_comm]
    rw [hboth, filter_decodeSwaps hok hnodup hpool, filter_poolSwaps, hc]
    rfl
  · intro pool hpool pools' hnodup' hpool'
    rw [filter_decodeSwaps hok hnodup' hpool', filter_decodeSwaps hok hnodup hpool]

namespace SampleSwaps

/-- A curve, and a pool that migrated. -/
def curve : PoolRow where
  dbcPool := "curve"
  baseMint := "meme"
  baseVault := some "curve-base"
  dammBaseVault := none
  quoteMint := "coin"
  quoteVault := some "curve-quote"
  dammPool := none
  dammQuoteVault := none

def migrated : PoolRow where
  dbcPool := "migrated"
  baseMint := "other"
  baseVault := some "old-base"
  dammBaseVault := some "damm-base"
  quoteMint := "coin"
  quoteVault := some "old-quote"
  dammPool := some "damm"
  dammQuoteVault := some "damm-quote"

def delta (tokenAccount owner mint : String) (amount : Int) : TokenDelta where
  tokenAccount := tokenAccount
  owner := owner
  mint := mint
  delta := amount
  decimals := 6

/-- A route that sells to the migrated pool and buys from the curve, in two transfers. -/
def route : SwapTx where
  signature := "s"
  slot := 1
  blockTime := 0
  failed := false
  feePayer := "payer"
  tokenDeltas := [delta "damm-base" "authority" "other" 40, delta "a" "alice" "other" (-40),
    delta "damm-quote" "authority" "coin" (-7), delta "curve-quote" "authority" "coin" 7,
    delta "curve-base" "authority" "meme" (-60), delta "b" "alice" "meme" 90,
    delta "curve-base" "authority" "meme" (-30)]

end SampleSwaps

/-- Each pool's swap is found, whatever the other moved. -/
theorem decodeSwaps_exact_sample :
    (∃ s, (decodeSwaps SampleSwaps.route [SampleSwaps.curve, SampleSwaps.migrated]).filter
      (fun s => s.pool = "curve" ∧ s.venue = .dbc) = [s] ∧
        IsSwap SampleSwaps.route SampleSwaps.curve s) ∧
    (decodeSwaps SampleSwaps.route [SampleSwaps.migrated]).filter (·.pool = "migrated") =
      (decodeSwaps SampleSwaps.route [SampleSwaps.curve, SampleSwaps.migrated]).filter
        (·.pool = "migrated") := by
  obtain ⟨-, hfound, hlocal⟩ := @decodeSwaps_exact SampleSwaps.route
    [SampleSwaps.curve, SampleSwaps.migrated] rfl (by decide +kernel)
  refine ⟨hfound SampleSwaps.curve (by simp) .dbc (Or.inl (by decide +kernel)), ?_⟩
  exact hlocal SampleSwaps.migrated (by simp) [SampleSwaps.migrated] (by decide +kernel) (by simp)

end IceMarkets.Indexer
