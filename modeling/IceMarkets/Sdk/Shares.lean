import IceMarkets.Sdk.Twab

/-!
# IceMarkets.Sdk.Shares

The split of `computeShares` is exact and fair: every eligible wallet gets the floor of
its pro-rata part, the first of the largest balances gets what the floors leave, and
nobody else gets anything.
-/

namespace IceMarkets.Sdk

open InsertionMap

variable {K : Type} [DecidableEq K]

/-! ### Definitions -/

/-- The entries that share: those of at least the minimum. -/
def eligibleOf (twab : List (K × Nat)) (minHoldingBase : Int) : List (K × Nat) :=
  twab.filter (minHoldingBase ≤ ·.2)

/-- The sum of the balances. -/
def balanceSum (entries : List (K × Nat)) : Nat := (entries.map (·.2)).sum

/-- The amount a wallet gets. -/
def shareOf (shares : List (K × Nat)) (wallet : K) : Nat := (shares.lookup wallet).getD 0

/-- What is left of the amount once every part is rounded down. -/
def dust (eligible : List (K × Nat)) (total : Nat) : Nat :=
  total - (FloorShares.shares total (balanceSum eligible) (eligible.map (·.2))).sum

/-- An exact and fair split of `total` among the entries of at least the minimum. -/
structure FairSplit (twab : List (K × Nat)) (minBase : Int) (total : Nat)
    (shares : List (K × Nat)) :
    Prop where
  /-- Nobody else is listed. -/
  eligible : ∀ w, w ∈ shares.map (·.1) ↔ ∃ b, (w, b) ∈ twab ∧ minBase ≤ (b : Int)
  nodup : (shares.map (·.1)).Nodup
  sum : balanceSum shares = total
  floor_le : ∀ w b, (w, b) ∈ eligibleOf twab minBase →
    total * b / balanceSum (eligibleOf twab minBase) ≤ shareOf shares w
  /-- One wallet of largest balance gets what is left, the others their floors. -/
  remainder : ∃ w₀ b₀, (w₀, b₀) ∈ eligibleOf twab minBase ∧
    (∀ e ∈ eligibleOf twab minBase, e.2 ≤ b₀) ∧
    shareOf shares w₀ =
      total * b₀ / balanceSum (eligibleOf twab minBase) + dust (eligibleOf twab minBase) total ∧
    ∀ w b, (w, b) ∈ eligibleOf twab minBase → w ≠ w₀ →
      shareOf shares w = total * b / balanceSum (eligibleOf twab minBase)
  dust_lt : dust (eligibleOf twab minBase) total < (eligibleOf twab minBase).length
  /-- More is never less, for the wallets left out too. -/
  mono : ∀ w b w' b', (w, b) ∈ twab → (w', b') ∈ twab → b < b' →
    shareOf shares w ≤ shareOf shares w'

/-! ### The largest balance -/

omit [DecidableEq K] in
/-- The search ends at its start or at an entry, and nothing seen is larger. -/
theorem foldl_largest (l : List (K × Nat)) (best : K × Int) :
    let r := l.foldl (fun (best : K × Int) e => if best.2 < (e.2 : Int) then (e.1, (e.2 : Int))
      else best) best
    (r = best ∨ ∃ e ∈ l, r = (e.1, (e.2 : Int))) ∧ best.2 ≤ r.2 ∧ ∀ e ∈ l, (e.2 : Int) ≤ r.2 := by
  induction l generalizing best with
  | nil => simp
  | cons e l ih =>
      simp only [List.foldl_cons]
      split
      · next hlt =>
          obtain ⟨hr, hle, hall⟩ := ih (e.1, (e.2 : Int))
          refine ⟨Or.inr ?_, hlt.le.trans hle, List.forall_mem_cons.mpr ⟨hle, hall⟩⟩
          rcases hr with hr | ⟨e', he', hr⟩
          · exact ⟨e, List.mem_cons_self, hr⟩
          · exact ⟨e', List.mem_cons_of_mem _ he', hr⟩
      · next hge =>
          obtain ⟨hr, hle, hall⟩ := ih best
          refine ⟨hr.imp_right ?_, hle, List.forall_mem_cons.mpr ⟨(not_lt.mp hge).trans hle, hall⟩⟩
          exact fun ⟨e', he', hr⟩ => ⟨e', List.mem_cons_of_mem _ he', hr⟩

omit [DecidableEq K] in
/-- The wallet found has the largest balance. -/
theorem largestWallet_spec {eligible : List (K × Nat)} (hne : eligible ≠ []) (first : K) :
    ∃ b, (largestWallet eligible first, b) ∈ eligible ∧ ∀ e ∈ eligible, e.2 ≤ b := by
  obtain ⟨hr, -, hall⟩ := foldl_largest eligible (first, -1)
  unfold largestWallet
  rcases hr with hr | ⟨e, he, hr⟩
  · -- any balance beats the start
    obtain ⟨e, he⟩ := List.exists_mem_of_ne_nil _ hne
    have := hall e he
    rw [hr] at this
    omega
  · refine ⟨e.2, ?_, fun e' he' => ?_⟩
    · rw [hr]
      exact he
    · have := hall e' he'
      rw [hr] at this
      exact Int.ofNat_le.mp this

/-! ### Every wallet's share -/

section Split

variable {twab : List (K × Nat)} {minBase : Int} {total : Nat}

theorem mem_keys_iff {m : List (K × Nat)} (h : (m.map (·.1)).Nodup) {w : K} :
    w ∈ m.map (·.1) ↔ ∃ b, m.lookup w = some b := by
  simp [← mem_iff_lookup h]

theorem lookup_floorShares {eligible : List (K × Nat)} (h : (eligible.map (·.1)).Nodup) (F D : Nat)
    (w : K) : (floorShares eligible F D).lookup w = (eligible.lookup w).map fun b => F * b / D := by
  rw [floorShares_eq h]
  clear h
  induction eligible with
  | nil => rfl
  | cons e l ih =>
      obtain ⟨w', b⟩ := e
      by_cases hw : w = w'
      · simp [hw]
      · simpa [List.lookup_cons, beq_eq_false_iff_ne.mpr hw] using ih

omit [DecidableEq K] in
theorem nodup_eligibleOf (h : (twab.map (·.1)).Nodup) (minBase : Int) :
    ((eligibleOf twab minBase).map (·.1)).Nodup :=
  h.sublist (List.filter_sublist.map _)

omit [DecidableEq K] in
theorem mem_eligibleOf {w : K} {b : Nat} :
    (w, b) ∈ eligibleOf twab minBase ↔ (w, b) ∈ twab ∧ minBase ≤ (b : Int) := by
  simp [eligibleOf]

/-- Without a balance there is nothing to split by. -/
theorem splitShares_eq_nil (h : balanceSum (eligibleOf twab minBase) = 0) :
    splitShares twab total minBase = [] := by
  simp only [eligibleOf, balanceSum] at h
  unfold splitShares
  simp only [h]
  cases twab.filter (minBase ≤ ·.2) <;> rfl

/-- With a positive sum both early exits are passed. -/
theorem splitShares_eq (h : (twab.map (·.1)).Nodup)
    (hpos : 0 < balanceSum (eligibleOf twab minBase))
    (total : Nat) :
    ∃ first, splitShares twab total minBase =
      if 0 < dust (eligibleOf twab minBase) total then
        upsert (largestWallet (eligibleOf twab minBase) first)
          (fun v => v.getD 0 + dust (eligibleOf twab minBase) total)
          (floorShares (eligibleOf twab minBase) total (balanceSum (eligibleOf twab minBase)))
      else floorShares (eligibleOf twab minBase) total (balanceSum (eligibleOf twab minBase)) := by
  have hsum := sum_floorShares (nodup_eligibleOf h minBase) total
    (balanceSum (eligibleOf twab minBase))
  obtain ⟨e, l, he⟩ : ∃ e l, twab.filter (minBase ≤ ·.2) = e :: l :=
    List.exists_cons_of_ne_nil fun hnil => by simp [eligibleOf, balanceSum, hnil] at hpos
  refine ⟨e.1, ?_⟩
  unfold dust
  rw [← hsum]
  unfold splitShares
  simp only [eligibleOf, balanceSum, he] at hpos ⊢
  rw [if_neg hpos.ne']

/-- The floor of the exact part, and the remainder for one wallet of largest balance. -/
theorem lookup_splitShares (h : (twab.map (·.1)).Nodup)
    (hpos : 0 < balanceSum (eligibleOf twab minBase)) (total : Nat) :
    ∃ w₀ b₀, (w₀, b₀) ∈ eligibleOf twab minBase ∧ (∀ e ∈ eligibleOf twab minBase, e.2 ≤ b₀) ∧
      ∀ w, (splitShares twab total minBase).lookup w =
        ((eligibleOf twab minBase).lookup w).map fun b =>
        total * b / balanceSum (eligibleOf twab minBase) +
          if w = w₀ then dust (eligibleOf twab minBase) total else 0 := by
  have hnodup := nodup_eligibleOf h minBase
  have hne : eligibleOf twab minBase ≠ [] := fun hnil => by simp [hnil, balanceSum] at hpos
  obtain ⟨first, hsplit⟩ := splitShares_eq h hpos total
  obtain ⟨b₀, hmem, hall⟩ := largestWallet_spec hne first
  have hlargest := (mem_iff_lookup hnodup).mp hmem
  refine ⟨_, b₀, hmem, hall, fun w => ?_⟩
  have hfloor := lookup_floorShares hnodup total (balanceSum (eligibleOf twab minBase))
  rw [hsplit]
  split
  · by_cases hw : w = largestWallet (eligibleOf twab minBase) first
    · subst hw
      rw [lookup_upsert_self, hfloor, hlargest]
      simp
    · rw [lookup_upsert_ne hw, hfloor]
      simp [hw]
  · next hdust =>
      have h0 : dust (eligibleOf twab minBase) total = 0 := Nat.eq_zero_of_not_pos hdust
      rw [hfloor]
      simp [h0]

/-- The split of `computeShares` is exact and fair. -/
theorem splitShares_fair (h : (twab.map (·.1)).Nodup)
    (hpos : 0 < balanceSum (eligibleOf twab minBase)) :
    FairSplit twab minBase total (splitShares twab total minBase) := by
  have hnodup := nodup_eligibleOf h minBase
  obtain ⟨w₀, b₀, hmem, hall, hlookup⟩ := lookup_splitShares h hpos total
  have hshare {w : K} {b : Nat} (hb : (w, b) ∈ eligibleOf twab minBase) :
      shareOf (splitShares twab total minBase) w =
        total * b / balanceSum (eligibleOf twab minBase) +
        if w = w₀ then dust (eligibleOf twab minBase) total else 0 := by
    unfold shareOf
    rw [hlookup, (mem_iff_lookup hnodup).mp hb]
    rfl
  have hlisted (w : K) : w ∈ (splitShares twab total minBase).map (·.1) ↔
      ∃ b, (w, b) ∈ eligibleOf twab minBase := by
    rw [mem_keys_iff (nodup_splitShares _ _ _)]
    simp [hlookup, mem_iff_lookup hnodup]
  have hwallet {b : Nat} (hb : (w₀, b) ∈ eligibleOf twab minBase) : b = b₀ := by
    rw [mem_iff_lookup hnodup] at hb hmem
    exact Option.some.inj (hb.symm.trans hmem)
  refine ⟨fun w => ?_, nodup_splitShares _ _ _, ?_, fun w b hb => ?_,
    ⟨w₀, b₀, hmem, hall, ?_, ?_⟩, ?_, ?_⟩
  · simp only [hlisted, mem_eligibleOf]
  · rcases @sum_splitShares _ _ _ h total minBase with hnil | hsum
    · have := (hlisted w₀).mpr ⟨b₀, hmem⟩
      simp [hnil] at this
    · exact hsum
  · rw [hshare hb]
    exact Nat.le_add_right _ _
  · rw [hshare hmem, if_pos rfl]
  · intro w b hb hw
    rw [hshare hb, if_neg hw, Nat.add_zero]
  · have := FloorShares.remainder_lt_length (F := total) hpos
    rwa [List.length_map] at this
  · intro w b w' b' hb hb' hlt
    by_cases hmin : minBase ≤ (b : Int)
    · -- the wallet with less is not the one of largest balance
      have hw : w ≠ w₀ := by
        intro hx
        obtain rfl := hx
        have hle := hall _ (mem_eligibleOf.mpr ⟨hb', by omega⟩)
        have := hwallet (mem_eligibleOf.mpr ⟨hb, hmin⟩)
        omega
      rw [hshare (mem_eligibleOf.mpr ⟨hb, hmin⟩),
        hshare (mem_eligibleOf.mpr ⟨hb', by omega⟩), if_neg hw,
        Nat.add_zero]
      exact (Nat.div_le_div_right (Nat.mul_le_mul_left _ hlt.le)).trans (Nat.le_add_right _ _)
    · -- a wallet left out gets nothing
      have hnot : w ∉ (splitShares twab total minBase).map (·.1) := by
        rw [hlisted]
        intro hx
        obtain ⟨c, hc⟩ := hx
        obtain ⟨hc, hcmin⟩ := mem_eligibleOf.mp hc
        rw [mem_iff_lookup h] at hb hc
        cases Option.some.inj (hb.symm.trans hc)
        exact hmin hcmin
      unfold shareOf
      rw [lookup_eq_none hnot]
      exact Nat.zero_le _

end Split

end IceMarkets.Sdk
