import IceMarkets.Keeper.Plan
import IceMarkets.Distributor.Run
import IceMarkets.Sdk.Proofs
import Mathlib.Data.List.Perm.Subperm

/-!
# IceMarkets.Keeper.Partition

How the keeper splits what is left of a plan, and that the program accepts the split.

The greedy loop keeps every remaining wallet in exactly one of its two lists, and what
it marks as pushable stays below the cap in every prefix (`splitRemaining_spec`), so the
chunks pass the program's checks one after another (`pushesAfter_ok`) and the leaves are
what is left.

The leaves rebuilt from the plan and the pushes depend on the wallets that are found pushed
alone. They are found from the rows of `payouts` and the events on chain, where the rows'
amounts add up: the keeper's are rounded from 1.01e18 base units on (`RowsAddUp`).
-/

namespace IceMarkets.Keeper

open Distributor Sdk InsertionMap Numeric

/-! ### The greedy split -/

/-- What the loop adds to a split: two sublists of what it went through. -/
structure Splits (cap : Nat) (remaining : List EpochPlanItem) (s s' : Split)
    (pushed left : List EpochPlanItem) : Prop where
  pushable : s'.pushable = s.pushable ++ pushed
  merkle : s'.merkle = s.merkle ++ left
  pushedTotal : s'.pushedTotal = s.pushedTotal + planTotal pushed
  perm : (pushed ++ left).Perm remaining
  pushed_sublist : pushed.Sublist remaining
  left_sublist : left.Sublist remaining
  cap : s'.pushedTotal ≤ max s.pushedTotal cap

theorem Splits.push {cap : Nat} {remaining pushed left : List EpochPlanItem} {s s' : Split}
    {p : EpochPlanItem} (hp : s.pushedTotal + p.amount ≤ cap)
    (h : Splits cap remaining
      { s with pushable := s.pushable ++ [p],
               pushedTotal := s.pushedTotal + p.amount } s' pushed left) :
    Splits cap (p :: remaining) s s' (p :: pushed) left where
  pushable := by simp [h.pushable]
  merkle := h.merkle
  pushedTotal := by
    have htotal := h.pushedTotal
    simp only [planTotal_cons] at htotal ⊢
    omega
  perm := h.perm.cons p
  pushed_sublist := h.pushed_sublist.cons_cons p
  left_sublist := h.left_sublist.cons p
  cap := h.cap.trans (max_le (hp.trans (le_max_right _ _)) (le_max_right _ _))

theorem Splits.leave {cap : Nat} {remaining pushed left : List EpochPlanItem} {s s' : Split}
    {p : EpochPlanItem}
    (h : Splits cap remaining { s with merkle := s.merkle ++ [p] } s' pushed left) :
    Splits cap (p :: remaining) s s' pushed (p :: left) where
  pushable := h.pushable
  merkle := by simp [h.merkle]
  pushedTotal := h.pushedTotal
  perm := List.perm_middle.trans (h.perm.cons p)
  pushed_sublist := h.pushed_sublist.cons p
  left_sublist := h.left_sublist.cons_cons p
  cap := h.cap

theorem splitRemaining_spec (cap : Nat) (remaining : List EpochPlanItem)
    (infos : List Bool) (s : Split) :
    ∃ pushed left, Splits cap remaining s (splitRemaining cap remaining infos s) pushed left := by
  induction remaining generalizing infos s with
  | nil =>
      refine ⟨[], [], ?_, ?_, ?_, List.Perm.refl _, List.Sublist.refl _, List.Sublist.refl _, ?_⟩
      all_goals simp [splitRemaining]
  | cons p remaining ih =>
      obtain ⟨pushed, left, h⟩ := ih infos.tail (splitItem cap s p (infos.headD false))
      unfold splitRemaining
      by_cases hp : infos.headD false = true ∧ s.pushedTotal + p.amount ≤ cap
      · have hs : splitItem cap s p (infos.headD false) =
            { s with pushable := s.pushable ++ [p],
                     pushedTotal := s.pushedTotal + p.amount } := if_pos hp
        rw [hs] at h ⊢
        exact ⟨p :: pushed, left, h.push hp.2⟩
      · have hs : splitItem cap s p (infos.headD false) =
          { s with merkle := s.merkle ++ [p] } := if_neg hp
        rw [hs] at h ⊢
        exact ⟨pushed, p :: left, h.leave⟩

section Parts

variable {cap : Nat} {remaining pushed left : List EpochPlanItem} {s s' : Split}

theorem Splits.nodup (h : Splits cap remaining s s' pushed left)
    (hr : (remaining.map (·.wallet)).Nodup) :
    (pushed.map (·.wallet) ++ left.map (·.wallet)).Nodup := by
  rw [← List.map_append]
  exact (h.perm.map _).nodup_iff.mpr hr

/-- No wallet is in both lists. -/
theorem Splits.disjoint (h : Splits cap remaining s s' pushed left)
    (hr : (remaining.map (·.wallet)).Nodup)
    {p q : EpochPlanItem} (hp : p ∈ pushed) (hq : q ∈ left) : p.wallet ≠ q.wallet :=
  (List.nodup_append.mp (h.nodup hr)).2.2 _ (List.mem_map_of_mem hp) _ (List.mem_map_of_mem hq)

/-- A sublist without repetition is what a filter by membership finds. -/
theorem filter_mem_of_sublist {l l' : List EpochPlanItem} (h : l.Sublist l') (hnodup : l'.Nodup) :
    l'.filter (· ∈ l) = l := by
  induction h with
  | slnil => rfl
  | @cons l l' a hsub ih =>
      obtain ⟨hnot, hnodup⟩ := List.nodup_cons.mp hnodup
      have ha : a ∉ l := fun hmem => hnot (hsub.subset hmem)
      rw [List.filter_cons_of_neg (by simpa using ha)]
      exact ih hnodup
  | @cons_cons l l' a hsub ih =>
      obtain ⟨hnot, hnodup⟩ := List.nodup_cons.mp hnodup
      rw [List.filter_cons_of_pos (by simp)]
      have hcongr : l'.filter (· ∈ a :: l) = l'.filter (· ∈ l) := by
        refine List.filter_congr fun x hx => ?_
        have hne : x ≠ a := fun heq => hnot (heq ▸ hx)
        simp [hne]
      rw [hcongr, ih hnodup]

/-- The leaves, in the plan's order, are what is left when the pushes are taken out. -/
theorem Splits.left_eq (h : Splits cap remaining s s' pushed left)
    (hr : (remaining.map (·.wallet)).Nodup) :
    left = remaining.filter (·.wallet ∉ pushed.map (·.wallet)) := by
  have hfilter := filter_mem_of_sublist h.left_sublist hr.of_map
  refine hfilter.symm.trans (List.filter_congr fun p hp => ?_)
  have hiff : p ∈ left ↔ p.wallet ∉ pushed.map (·.wallet) := by
    constructor
    · intro hleft hmem
      obtain ⟨q, hq, heq⟩ := List.mem_map.mp hmem
      exact h.disjoint hr hq hleft heq
    · intro hnot
      rcases List.mem_append.mp (h.perm.mem_iff.mpr hp) with hin | hin
      · exact absurd (List.mem_map_of_mem hin) hnot
      · exact hin
  exact decide_eq_decide.mpr hiff

end Parts

/-! ### Chunks -/

section Chunks

variable {α : Type}

theorem flatten_chunksFrom {fuel : Nat} {l : List α} (h : l.length ≤ fuel) :
    (chunksFrom fuel l).flatten = l := by
  induction fuel generalizing l with
  | zero =>
      obtain rfl := List.length_eq_zero_iff.mp (Nat.le_zero.mp h)
      rfl
  | succ fuel ih =>
      unfold chunksFrom
      cases l with
      | nil => rfl
      | cons x l =>
          have hlen : ((x :: l).drop pushChunkSize).length ≤ fuel := by
            rw [List.length_drop]
            simp only [List.length_cons, pushChunkSize] at h ⊢
            omega
          simp only [List.isEmpty_cons, Bool.false_eq_true, if_false, List.flatten_cons]
          rw [ih hlen, List.take_append_drop]

theorem flatten_chunks (l : List α) : (chunks l).flatten = l := flatten_chunksFrom le_rfl

theorem length_of_mem_chunks {l c : List α} (h : c ∈ chunks l) : c.length ≤ pushChunkSize := by
  unfold chunks at h
  generalize l.length = fuel at h
  induction fuel generalizing l with
  | zero => cases h
  | succ fuel ih =>
      unfold chunksFrom at h
      split_ifs at h
      · cases h
      · rcases List.mem_cons.mp h with rfl | h
        · exact List.length_take_le _ _
        · exact ih h

end Chunks

/-! ### Encoding -/

/-- An encoded item, as the plan has it. -/
def planItem (it : PayoutItem) : EpochPlanItem where
  wallet := it.wallet
  amount := it.amount.toNat

theorem mapM_eq_some {α β : Type} {f : α → Option β} {g : β → α}
    (hf : ∀ a b, f a = some b ↔ g b = a)
    {l : List α} {l' : List β} : l.mapM f = some l' ↔ l'.map g = l := by
  induction l generalizing l' with
  | nil => simp [eq_comm]
  | cons a l ih =>
      simp only [List.mapM_cons, Option.bind_eq_bind, Option.bind_eq_some_iff, hf, ih]
      constructor
      · intro h
        obtain ⟨b, rfl, bs, rfl, h⟩ := h
        cases h
        rfl
      · intro h
        cases l' with
        | nil => cases h
        | cons b bs =>
            cases h
            exact ⟨b, rfl, bs, rfl, rfl⟩

theorem exists_mapM_ok {ε α β : Type} {f : α → Except ε β} {l : List α}
    (h : ∀ a ∈ l, ∃ b, f a = .ok b) :
    ∃ l', l.mapM f = .ok l' := by
  induction l with
  | nil => exact ⟨[], rfl⟩
  | cons a l ih =>
      obtain ⟨b, hb⟩ := h a List.mem_cons_self
      obtain ⟨l', hl'⟩ := ih fun a ha => h a (List.mem_cons_of_mem _ ha)
      refine ⟨b :: l', ?_⟩
      rw [List.mapM_cons, hb, hl']
      rfl

theorem encodeItem_eq_some {p : EpochPlanItem} {it : PayoutItem} :
    ((IceMarkets.toU64 p.amount).map
      fun amount => ({ wallet := p.wallet, amount } : PayoutItem)) = some it ↔
      planItem it = p := by
  rw [Option.map_eq_some_iff]
  constructor
  · intro h
    obtain ⟨amount, ha, rfl⟩ := h
    rw [toU64_eq_some] at ha
    simp [planItem, ha]
  · intro h
    obtain rfl := h
    exact ⟨it.amount, toU64_eq_some.mpr rfl, rfl⟩

theorem encodeItems_eq_some {items : List EpochPlanItem} {enc : List PayoutItem} :
    encodeItems items = some enc ↔ enc.map planItem = items :=
  mapM_eq_some fun _ _ => encodeItem_eq_some

theorem itemTotal_eq (enc : List PayoutItem) : itemTotal enc = planTotal (enc.map planItem) := by
  simp [itemTotal, planTotal, planItem, Function.comp_def]

/-- Items that fit a `u64` together can be encoded. -/
theorem exists_encodeItems {items : List EpochPlanItem} (h : planTotal items < 2 ^ 64) :
    ∃ enc, encodeItems items = some enc := by
  induction items with
  | nil => exact ⟨[], rfl⟩
  | cons p items ih =>
      rw [planTotal_cons] at h
      obtain ⟨enc, henc⟩ := ih (by omega)
      obtain ⟨amount, ha⟩ := exists_toU64 (show p.amount < 2 ^ 64 by omega)
      rw [encodeItems_eq_some] at henc
      refine ⟨{ wallet := p.wallet, amount } :: enc, encodeItems_eq_some.mpr ?_⟩
      rw [toU64_eq_some] at ha
      simp [planItem, ha, henc]

/-- Every chunk of such items can. -/
theorem exists_encodeChunks {items : List EpochPlanItem} (h : planTotal items < 2 ^ 64) :
    ∃ batches, (chunks items).mapM encodeItems = some batches := by
  have hall : ∀ c ∈ chunks items, ∃ enc, encodeItems c = some enc := by
    intro c hc
    obtain ⟨xs, ys, hsplit⟩ := List.append_of_mem hc
    have hflat := flatten_chunks items
    rw [hsplit, List.flatten_append, List.flatten_cons] at hflat
    rw [← hflat, planTotal_append, planTotal_append] at h
    exact exists_encodeItems (by omega)
  generalize chunks items = cs at hall
  induction cs with
  | nil => exact ⟨[], rfl⟩
  | cons c cs ih =>
      obtain ⟨enc, henc⟩ := hall c List.mem_cons_self
      obtain ⟨batches, hb⟩ := ih fun c hc => hall c (List.mem_cons_of_mem _ hc)
      exact ⟨enc :: batches, by simp [List.mapM_cons, henc, hb]⟩

/-! ### The program's checks -/

/-- The checks of one push after another, each on the epoch the last one left. -/
def pushesAfter (cfg : DistConfig) : Epoch → List (List PayoutItem) → DistResult Epoch
  | e, [] => .ok e
  | e, items :: batches => do
      let pushed ← pushedAfter cfg e items
      pushesAfter cfg { e with pushedAmount := pushed } batches

section Checks

variable {cfg : DistConfig} {e : Epoch}

theorem sumItems_of_pos {items : List PayoutItem} (hpos : ∀ it ∈ items, 0 < it.amount.toNat)
    {sum : UInt64}
    (h : sum.toNat + itemTotal items < 2 ^ 64) : ∃ sum', sumItems items sum = .ok sum' := by
  induction items generalizing sum with
  | nil => exact ⟨sum, rfl⟩
  | cons it items ih =>
      have htotal : itemTotal (it :: items) =
        it.amount.toNat + itemTotal items := by simp [itemTotal]
      rw [htotal] at h
      have hit : 0 < it.amount := by
        rw [UInt64.lt_iff_toNat_lt, UInt64.toNat_zero]
        exact hpos it List.mem_cons_self
      obtain ⟨next, hnext⟩ := exists_toU64 (show sum.toNat + it.amount.toNat < 2 ^ 64 by omega)
      have hadd : checkedAdd sum it.amount = some next := hnext
      rw [toU64_eq_some] at hnext
      obtain ⟨sum', hsum'⟩ :=
        @ih (fun it hit => hpos it (List.mem_cons_of_mem _ hit)) next (by omega)
      refine ⟨sum', ?_⟩
      unfold sumItems
      rw [require_of hit, hadd]
      exact hsum'

theorem pushedAfter_of_le {items : List PayoutItem} (hpos : ∀ it ∈ items, 0 < it.amount.toNat)
    (htotal : e.pushedAmount.toNat + itemTotal items ≤ e.totalAmount.toNat)
    (hcap : e.pushedAmount.toNat + itemTotal items ≤ pushCap cfg e) :
    ∃ pushed, pushedAfter cfg e items = .ok pushed ∧
      pushed.toNat = e.pushedAmount.toNat + itemTotal items := by
  have hlt := e.totalAmount.toNat_lt
  obtain ⟨sum, hsum⟩ := @sumItems_of_pos _ hpos 0 (by rw [UInt64.toNat_zero]; omega)
  have hsumNat := sumItems_ok hsum
  rw [UInt64.toNat_zero, Nat.zero_add] at hsumNat
  obtain ⟨rem, hrem⟩ := exists_toU64
    (show e.totalAmount.toNat - e.pushedAmount.toNat < 2 ^ 64 by omega)
  obtain ⟨pushed, hpushed⟩ := exists_toU64 (show e.pushedAmount.toNat + sum.toNat < 2 ^ 64 by omega)
  rw [toU64_eq_some] at hrem hpushed
  have hsub : checkedSub e.totalAmount e.pushedAmount = some rem :=
    checkedSub_eq_some.mpr (by omega)
  have hadd : checkedAdd e.pushedAmount sum = some pushed := checkedAdd_eq_some.mpr hpushed
  have hle : sum ≤ rem := by
    rw [UInt64.le_iff_toNat_le]
    omega
  have hcap' : pushed.toNat ≤ pushCap cfg e := by omega
  refine ⟨pushed, ?_, by omega⟩
  unfold pushedAfter
  rw [hsum]
  simp only [ok_bind, okOr, hsub, require_of hle, hadd, require_of hcap']

/-- Pushes that stay below the cap and the total together pass one after another. -/
theorem pushesAfter_ok {batches : List (List PayoutItem)}
    (hpos : ∀ it ∈ batches.flatten, 0 < it.amount.toNat)
    (htotal : e.pushedAmount.toNat + itemTotal batches.flatten ≤ e.totalAmount.toNat)
    (hcap : batches ≠ [] → e.pushedAmount.toNat + itemTotal batches.flatten ≤ pushCap cfg e) :
    ∃ pushed : UInt64, pushesAfter cfg e batches = .ok { e with pushedAmount := pushed } ∧
      pushed.toNat = e.pushedAmount.toNat + itemTotal batches.flatten := by
  induction batches generalizing e with
  | nil => exact ⟨e.pushedAmount, rfl, by simp [itemTotal]⟩
  | cons items batches ih =>
      have hsplit : itemTotal (items :: batches).flatten =
          itemTotal items + itemTotal batches.flatten := by
        simp [itemTotal]
      have hcap := hcap (by simp)
      rw [hsplit] at htotal hcap
      obtain ⟨pushed, hpushed, hnat⟩ := @pushedAfter_of_le cfg e items
        (fun it hit => hpos it (by simp [hit])) (by omega) (by omega)
      obtain ⟨last, hlast, hlastNat⟩ := @ih { e with pushedAmount := pushed }
        (fun it hit => hpos it (by
          rw [List.flatten_cons]
          exact List.mem_append_right _ hit))
        (by simp only; omega) (fun _ => by
          change pushed.toNat + _ ≤ pushCap cfg e
          omega)
      refine ⟨last, ?_, by simp only at hlastNat; omega⟩
      unfold pushesAfter
      rw [hpushed]
      exact hlast

/-- The keeper's cap is the program's, for a share of the total. -/
theorem pushCap_eq (h : cfg.maxPushPerEpochBps.toNat ≤ 10000) :
    pushCap cfg e = keeperPushCap e.totalAmount.toNat cfg.maxPushPerEpochBps.toNat := by
  have hlt := e.totalAmount.toNat_lt
  have hle : e.totalAmount.toNat * cfg.maxPushPerEpochBps.toNat / 10000 ≤ e.totalAmount.toNat :=
    Nat.div_le_of_le_mul (by rw [Nat.mul_comm]; exact Nat.mul_le_mul_right _ h)
  exact Nat.mod_eq_of_lt (lt_of_le_of_lt hle hlt)

/-- The remainder check of `finalize_epoch`. -/
def finalizeCheck (e : Epoch) (merkleTotal : UInt64) : DistResult Unit := do
  let remainder ← okOr (checkedSub e.totalAmount e.pushedAmount) .mathOverflow
  require (merkleTotal ≤ remainder) .exceedsRemainder

theorem recordFinalize_eq (keeper : Pubkey) (merkleRoot : Bytes32) (merkleTotal : UInt64) :
    recordFinalize cfg e keeper merkleRoot merkleTotal = (do
      require (cfg.paused = false) .paused
      require (cfg.isAdminOrKeeper keeper = true) .unauthorized
      require (e.finalized = false) .alreadyFinalized
      finalizeCheck e merkleTotal
      .ok { e with merkleRoot, merkleTotal, finalized := true }) := by
  unfold recordFinalize finalizeCheck
  cases checkedSub e.totalAmount e.pushedAmount <;> rfl

theorem finalizeCheck_ok {merkleTotal : UInt64}
    (h : e.pushedAmount.toNat + merkleTotal.toNat ≤ e.totalAmount.toNat) :
    finalizeCheck e merkleTotal = .ok () := by
  have hlt := e.totalAmount.toNat_lt
  obtain ⟨rem, hrem⟩ := exists_toU64
    (show e.totalAmount.toNat - e.pushedAmount.toNat < 2 ^ 64 by omega)
  rw [toU64_eq_some] at hrem
  have hsub : checkedSub e.totalAmount e.pushedAmount = some rem :=
    checkedSub_eq_some.mpr (by omega)
  have hle : merkleTotal ≤ rem := by
    rw [UInt64.le_iff_toNat_le]
    omega
  unfold finalizeCheck
  simp only [hsub, okOr, ok_bind]
  exact require_of hle

end Checks

/-! ### The claim tree -/

section Tree

variable {env : KeeperEnv} {merkle : List EpochPlanItem}

/-- The total of a tree that was built. -/
theorem treeTotal_eq {index : Nat} {tree : Option EpochMerkleTree}
    (h : epochTree env index merkle = .ok tree) :
    treeTotal tree = planTotal merkle := by
  unfold epochTree at h
  split_ifs at h with hempty
  · cases h
    rw [List.isEmpty_iff.mp hempty]
    rfl
  · cases hbuild : buildEpochTree env.keccak256 (env.epochPdaFor index).bytes
        (merkle.map fun p => { wallet := p.wallet.bytes, amount := p.amount }) with
    | error err =>
        rw [hbuild] at h
        cases h
    | ok t =>
        rw [hbuild] at h
        cases h
        obtain ⟨key, -, hentries, hof⟩ := buildEpochTree_ok hbuild
        have hamounts : merkle.map (·.amount) = t.entries.map (·.amount.toNat) := by
          simpa [Function.comp_def, Entry.raw] using congrArg (List.map (·.amount.toNat)) hentries
        change t.total = planTotal merkle
        rw [hof.total, planTotal, hamounts]

/-- A leaf list that fits a `u64` has a tree with a proof for every leaf. -/
theorem exists_epochTree (index : Nat) (hnodup : (merkle.map (·.wallet)).Nodup)
    (hlt : planTotal merkle < 2 ^ 64) :
    ∃ tree rows, epochTree env index merkle = .ok tree ∧ finalizedRows env index tree = .ok rows ∧
      treeTotal tree = planTotal merkle := by
  by_cases hnil : merkle = []
  · subst hnil
    exact ⟨none, [], rfl, rfl, rfl⟩
  obtain ⟨enc, henc⟩ := exists_encodeItems hlt
  rw [encodeItems_eq_some] at henc
  let entries : List Entry := enc.map fun it => { wallet := it.wallet, amount := it.amount }
  have hraw : merkle.map
    (fun p => ({ wallet := p.wallet.bytes, amount := p.amount } : MerkleEntry)) =
      entries.map Entry.raw := by
    rw [← henc]
    simp [entries, planItem, Entry.raw, Function.comp_def]
  have hwallets : entries.map (·.wallet) = merkle.map (·.wallet) := by
    rw [← henc]
    simp [entries, planItem, Function.comp_def]
  have hne : entries ≠ [] := by
    intro h
    rw [h, List.map_nil] at hwallets
    exact hnil (List.map_eq_nil_iff.mp hwallets.symm)
  obtain ⟨tree, htree, hentries, hof⟩ :=
    exists_buildEpochTree env.keccak256 (env.epochPdaFor index) hne
    (hwallets ▸ hnodup)
  have hproofs : ∃ rows, merkleLeafRows env index tree = .ok rows := by
    unfold merkleLeafRows
    refine exists_mapM_ok fun ⟨e, i⟩ hx => ?_
    obtain ⟨proof, hproof, -⟩ := getProof_accepted hof (List.mk_mem_zipIdx_iff_getElem?.mp hx)
    exact ⟨{ epochIndex := index, epochPubkey := env.epochPdaFor index, wallet := e.wallet
             coinMint := env.coinMint, amount := e.amount, proof }, by simp only [hproof]; rfl⟩
  obtain ⟨rows, hrows⟩ := hproofs
  refine ⟨some tree, rows, ?_, hrows, ?_⟩
  · unfold epochTree
    rw [if_neg (by simpa using hnil), hraw, htree]
    rfl
  · change tree.total = planTotal merkle
    rw [hof.total, hentries, ← henc]
    simp [entries, planTotal, planItem, Function.comp_def]

end Tree

/-! ### Reconciling and rebuilding -/

section Repair

variable {env : KeeperEnv} {plan paid rows events : List EpochPlanItem}

theorem addPayout_of_mem {pushed : List (Pubkey × Nat)} {ev : EpochPlanItem}
    (h : ev.wallet ∈ pushed.map (·.1)) : addPayout pushed ev = pushed := if_pos h

theorem addPayout_of_notMem {pushed : List (Pubkey × Nat)} {ev : EpochPlanItem}
    (h : ev.wallet ∉ pushed.map (·.1)) :
    addPayout pushed ev = pushed ++ [(ev.wallet, ev.amount)] := if_neg h

/-- A map of rows of distinct wallets holds each row. -/
theorem fold_rows {m : List (Pubkey × Nat)} (h : (m.map (·.1) ++ rows.map (·.wallet)).Nodup) :
    fold (·.wallet) (fun r _ => r.amount) rows m = m ++ rows.map fun r => (r.wallet, r.amount) := by
  induction rows generalizing m with
  | nil => simp [fold]
  | cons r rows ih =>
      have hr : r.wallet ∉ m.map (·.1) := fun hmem =>
        (List.nodup_append.mp h).2.2 _ hmem _ (List.mem_map_of_mem List.mem_cons_self) rfl
      have hstep : fold (·.wallet) (fun r _ => r.amount) (r :: rows) m =
          fold (·.wallet) (fun r _ => r.amount) rows (m ++ [(r.wallet, r.amount)]) := by
        simp only [fold, List.foldl_cons]
        rw [upsert_of_notMem hr]
      rw [hstep, ih (by simpa using h)]
      simp

theorem pushedMap_eq (h : (rows.map (·.wallet)).Nodup) :
    pushedMap rows = rows.map fun r => (r.wallet, r.amount) := by
  unfold pushedMap
  simpa using @fold_rows rows [] (by simpa using h)

/-- What the events add: those of wallets that are not there yet, one of each. -/
structure AddsTo (m : List (Pubkey × Nat)) (events more : List EpochPlanItem) : Prop where
  sublist : more.Sublist events
  eq : events.foldl addPayout m = m ++ more.map fun p => (p.wallet, p.amount)
  fresh : ∀ p ∈ more, p.wallet ∉ m.map (·.1)
  nodup : (more.map (·.wallet)).Nodup
  cover : ∀ ev ∈ events, ev.wallet ∈ m.map (·.1) ∨ ev.wallet ∈ more.map (·.wallet)

theorem exists_addsTo (m : List (Pubkey × Nat)) (events : List EpochPlanItem) :
    ∃ more, AddsTo m events more := by
  induction events generalizing m with
  | nil => exact ⟨[], .slnil, by simp, nofun, List.nodup_nil, nofun⟩
  | cons ev events ih =>
      by_cases hmem : ev.wallet ∈ m.map (·.1)
      · obtain ⟨more, h⟩ := ih m
        refine ⟨more, h.sublist.cons ev, ?_, h.fresh, h.nodup, ?_⟩
        · rw [List.foldl_cons, addPayout_of_mem hmem, h.eq]
        · intro ev' hev'
          rcases List.mem_cons.mp hev' with rfl | hev'
          · exact .inl hmem
          · exact h.cover ev' hev'
      · obtain ⟨more, h⟩ := ih (m ++ [(ev.wallet, ev.amount)])
        refine ⟨ev :: more, h.sublist.cons_cons ev, ?_, ?_, ?_, ?_⟩
        · rw [List.foldl_cons, addPayout_of_notMem hmem, h.eq]
          simp
        · intro p hp
          rcases List.mem_cons.mp hp with rfl | hp
          · exact hmem
          · exact fun hin => h.fresh p hp (by simp [hin])
        · refine List.nodup_cons.mpr ⟨?_, h.nodup⟩
          intro hin
          obtain ⟨p, hp, heq⟩ := List.mem_map.mp hin
          exact h.fresh p hp (by simp [heq])
        · intro ev' hev'
          rcases List.mem_cons.mp hev' with rfl | hev'
          · exact .inr (by simp)
          · have hcover := h.cover ev' hev'
            simp only [List.map_append, List.map_cons, List.map_nil, List.mem_append,
              List.mem_singleton] at hcover
            rcases hcover with (hin | heq) | hin
            · exact .inl hin
            · exact .inr (by simp [heq])
            · exact .inr (List.mem_cons_of_mem _ hin)

/-- The rows and what the events add to them. -/
theorem pushedSum_addsTo {more : List EpochPlanItem} (hrows : (rows.map (·.wallet)).Nodup)
    (hmore : AddsTo (pushedMap rows) events more) :
    pushedSum (events.foldl addPayout (pushedMap rows)) = planTotal rows + planTotal more ∧
      ∀ w, w ∈ (events.foldl addPayout (pushedMap rows)).map (·.1) ↔
        w ∈ rows.map (·.wallet) ∨ w ∈ more.map (·.wallet) := by
  rw [hmore.eq, pushedMap_eq hrows]
  simp [pushedSum, planTotal, Function.comp_def]

/-- Who wrote a row of `payouts`. -/
inductive RowWriter
  | keeper
  | indexer
  deriving DecidableEq, Repr

/-- The row of a payout: the keeper's is rounded, the indexer's is not. -/
def RowWriter.row (p : EpochPlanItem) : RowWriter → EpochPlanItem
  | keeper => recordedItem p
  | indexer => p

/-- The rows of some payouts. -/
def storedRows (kept : List (EpochPlanItem × RowWriter)) : List EpochPlanItem :=
  kept.map fun x => x.2.row x.1

/-- What the rows and the events say of the pushes made: the rows are of all of them, or the
events are. -/
structure Recorded (kept : List (EpochPlanItem × RowWriter))
    (events paid : List EpochPlanItem) : Prop where
  of_paid : (kept.map (·.1)).Subperm paid
  events_of_paid : events.Subperm paid
  complete : (kept.map (·.1)).Perm paid ∨ events.Perm paid

/-- The amounts of the rows can be read, and come to what the rows' wallets were paid. -/
def RowsAddUp (kept : List (EpochPlanItem × RowWriter)) : Prop :=
  (∀ r ∈ storedRows kept, r.amount < 2 ^ 63) ∧
    planTotal (storedRows kept) = planTotal (kept.map (·.1))

theorem wallets_storedRows (kept : List (EpochPlanItem × RowWriter)) :
    (storedRows kept).map (·.wallet) = (kept.map (·.1)).map (·.wallet) := by
  unfold storedRows
  simp only [List.map_map]
  refine List.map_congr_left fun x _ => ?_
  cases h : x.2 <;> simp [h, RowWriter.row, recordedItem]

/-- Below 1.01e18 base units a row is exact. -/
theorem RowWriter.row_eq_of_lt {p : EpochPlanItem} (writer : RowWriter)
    (h : p.amount < 101 * 10 ^ 16) : writer.row p = p := by
  cases writer with
  | indexer => rfl
  | keeper =>
      have hkept : perMillion (p.amount : Int) = p.amount := perMillion_of_lt (by omega)
      simp [RowWriter.row, recordedItem, hkept]

theorem rowsAddUp_of_lt {kept : List (EpochPlanItem × RowWriter)}
    (h : ∀ x ∈ kept, x.1.amount < 101 * 10 ^ 16) : RowsAddUp kept := by
  have hrows : storedRows kept = kept.map (·.1) :=
    List.map_congr_left fun x hx => x.2.row_eq_of_lt (h x hx)
  refine ⟨?_, by rw [hrows]⟩
  rw [hrows]
  intro r hr
  obtain ⟨x, hx, rfl⟩ := List.mem_map.mp hr
  have hlt := h x hx
  omega

theorem readPushed_eq_some {rows rows' : List EpochPlanItem} :
    readPushed rows = some rows' ↔ (∀ r ∈ rows, r.amount < 2 ^ 63) ∧ rows = rows' := by
  unfold readPushed
  rw [Option.ite_none_right_eq_some, Option.some.injEq]

/-- Items of wallets that were paid, one of each, are all that was paid. -/
theorem perm_of_cover {xs : List EpochPlanItem} (hnodup : (paid.map (·.wallet)).Nodup)
    (hxs : (xs.map (·.wallet)).Nodup) (hmem : ∀ p ∈ xs, p ∈ paid)
    (hcover : ∀ p ∈ paid, p.wallet ∈ xs.map (·.wallet)) : xs.Perm paid := by
  refine (List.perm_ext_iff_of_nodup hxs.of_map hnodup.of_map).mpr fun p => ⟨hmem p, ?_⟩
  intro hp
  obtain ⟨q, hq, heq⟩ := List.mem_map.mp (hcover p hp)
  obtain rfl := List.inj_on_of_nodup_map hnodup (hmem q hq) hp heq
  exact hq

/-- Rows that add up to all the pushes are all of them. -/
theorem perm_of_planTotal_eq (hsub : List.Subperm rows paid) (hpos : ∀ p ∈ paid, 0 < p.amount)
    (h : planTotal rows = planTotal paid) : rows.Perm paid := by
  obtain ⟨l, hl, hsub⟩ := hsub
  obtain ⟨rest, hrest⟩ := hsub.exists_perm_append
  have htotal := planTotal_perm hrest
  rw [planTotal_append, planTotal_perm hl, ← h] at htotal
  cases rest with
  | nil => exact hl.symm.trans (by simpa using hrest.symm)
  | cons p rest =>
      have hp := hpos p (hrest.mem_iff.mpr (by simp))
      rw [planTotal_cons] at htotal
      omega

theorem nodup_of_subperm {xs : List EpochPlanItem} (h : xs.Subperm paid)
    (hnodup : (paid.map (·.wallet)).Nodup) : (xs.map (·.wallet)).Nodup := by
  obtain ⟨l, hl, hsub⟩ := h
  exact (hl.map _).nodup_iff.mp (hnodup.sublist (hsub.map _))

section Found

variable {kept : List (EpochPlanItem × RowWriter)} {more : List EpochPlanItem}

/-- The payouts of the rows and the events beside them, where these are of all wallets. -/
theorem Recorded.perm (h : Recorded kept events paid) (hnodup : (paid.map (·.wallet)).Nodup)
    (hmore : AddsTo (pushedMap (storedRows kept)) events more)
    (hcover : ∀ p ∈ paid, p.wallet ∈ (storedRows kept).map (·.wallet) ∨
      p.wallet ∈ more.map (·.wallet)) : (kept.map (·.1) ++ more).Perm paid := by
  have hkept := nodup_of_subperm h.of_paid hnodup
  have hkeys : (pushedMap (storedRows kept)).map (·.1) = (kept.map (·.1)).map (·.wallet) := by
    rw [pushedMap_eq (by rwa [wallets_storedRows]), ← wallets_storedRows]
    simp
  refine perm_of_cover hnodup ?_ ?_ ?_
  · rw [List.map_append]
    refine hkept.append hmore.nodup ?_
    intro w hw hw'
    obtain ⟨p, hp, rfl⟩ := List.mem_map.mp hw'
    exact hmore.fresh p hp (hkeys ▸ hw)
  · intro p hp
    rcases List.mem_append.mp hp with hp | hp
    · exact h.of_paid.subset hp
    · exact h.events_of_paid.subset (hmore.sublist.subset hp)
  · intro p hp
    rw [List.map_append, List.mem_append, ← wallets_storedRows]
    exact hcover p hp

/-- Reconciling finds the wallets that were pushed, where the rows add up. -/
theorem reconcile_of_rowsAddUp (hnodup : (paid.map (·.wallet)).Nodup)
    (hpos : ∀ p ∈ paid, 0 < p.amount) (h : Recorded kept events paid) (hsum : RowsAddUp kept) :
    ∃ pushed, reconcile (storedRows kept) events (planTotal paid) = some pushed ∧
      ∀ w, w ∈ pushed.map (·.1) ↔ w ∈ paid.map (·.wallet) := by
  have hrows : ((storedRows kept).map (·.wallet)).Nodup := by
    rw [wallets_storedRows]
    exact nodup_of_subperm h.of_paid hnodup
  unfold reconcile
  by_cases htotal : planTotal (storedRows kept) = planTotal paid
  · have hperm := perm_of_planTotal_eq h.of_paid hpos (hsum.2.symm.trans htotal)
    refine ⟨_, if_pos htotal, fun w => ?_⟩
    rw [pushedMap_eq hrows, ← (hperm.map (·.wallet)).mem_iff, ← wallets_storedRows]
    simp
  · have hevents : events.Perm paid := by
      refine h.complete.resolve_left fun hperm => htotal ?_
      rw [hsum.2, planTotal_perm hperm]
    obtain ⟨more, hmore⟩ := exists_addsTo (pushedMap (storedRows kept)) events
    obtain ⟨hfound, hkeys⟩ := pushedSum_addsTo hrows hmore
    have hperm := h.perm hnodup hmore fun p hp => by
      have hcover := hmore.cover p (hevents.mem_iff.mpr hp)
      rwa [pushedMap_eq hrows, List.map_map] at hcover
    have hall := planTotal_perm hperm
    rw [planTotal_append, ← hsum.2, ← hfound] at hall
    refine ⟨_, (if_neg htotal).trans (if_pos hall), fun w => ?_⟩
    rw [hkeys, wallets_storedRows, ← (hperm.map (·.wallet)).mem_iff, List.map_append,
      List.mem_append]

/-- Rows with which every wallet pushed is found add up. -/
theorem rows_total_of_reconcile (hnodup : (paid.map (·.wallet)).Nodup)
    (h : Recorded kept events paid) {pushed : List (Pubkey × Nat)}
    (hfound : reconcile (storedRows kept) events (planTotal paid) = some pushed)
    (hcover : ∀ p ∈ paid, p.wallet ∈ pushed.map (·.1)) :
    planTotal (storedRows kept) = planTotal (kept.map (·.1)) := by
  have hrows : ((storedRows kept).map (·.wallet)).Nodup := by
    rw [wallets_storedRows]
    exact nodup_of_subperm h.of_paid hnodup
  obtain ⟨more, hmore⟩ := exists_addsTo (pushedMap (storedRows kept)) events
  obtain ⟨hsum, hkeys⟩ := pushedSum_addsTo hrows hmore
  unfold reconcile at hfound
  split_ifs at hfound with htotal
  · -- no event was asked for
    cases hfound
    have hperm : (kept.map (·.1)).Perm paid := by
      refine perm_of_cover hnodup (nodup_of_subperm h.of_paid hnodup)
        (fun p hp => h.of_paid.subset hp) ?_
      intro p hp
      have hin := hcover p hp
      rw [pushedMap_eq hrows] at hin
      rw [← wallets_storedRows]
      simpa using hin
    rw [htotal, planTotal_perm hperm]
  · obtain ⟨htotal', heq⟩ := Option.ite_none_right_eq_some.mp hfound
    cases heq
    have hall := planTotal_perm (h.perm hnodup hmore fun p hp => (hkeys p.wallet).mp (hcover p hp))
    rw [planTotal_append] at hall
    omega

end Found

/-- The leaves rebuilt depend on the wallets that were pushed, not on their order. -/
theorem repairMerkle_congr {pushed : List (Pubkey × Nat)} {wallets : List Pubkey}
    (h : ∀ p ∈ plan, p.wallet ∈ pushed.map (·.1) ↔ p.wallet ∈ wallets) :
    repairMerkle env plan pushed = sortByWallet env (remainingOf plan wallets) := by
  unfold repairMerkle remainingOf
  congr 1
  refine List.filter_congr fun p hp => ?_
  simp only [h p hp]

end Repair

/-! ### The partition -/

section Plans

variable {env : KeeperEnv} {cfg : DistConfig} {acc : Epoch} {plan : List EpochPlanItem}
  {already : List Pubkey} {infos : List Bool}

/-- Every item paid once a plan is worked off, in the order of the plan and then of the
pushes: those pushed before, and those pushed now. -/
def paidItems (plan : List EpochPlanItem) (already : List Pubkey) (pushable : List EpochPlanItem) :
    List EpochPlanItem :=
  plan.filter (·.wallet ∈ already) ++ pushable

/-- What is left of a valid plan is what was not pushed. -/
theorem remainingOf_eq {total : Nat} (h : ValidPlan plan total) :
    remainingOf plan already = plan.filter (·.wallet ∉ already) :=
  List.filter_congr fun p hp => by simp only [h.pos p hp, true_and]

theorem perm_already_remaining {total : Nat} (h : ValidPlan plan total) :
    (plan.filter (·.wallet ∈ already) ++ remainingOf plan already).Perm plan := by
  rw [remainingOf_eq h]
  simpa using List.filter_append_perm (fun p : EpochPlanItem => decide (p.wallet ∈ already)) plan

/-- What was paid and the leaves are the plan. -/
theorem Splits.paid_perm {total : Nat} (h : ValidPlan plan total) {s s' : Split}
    {pushed left : List EpochPlanItem} {cap : Nat}
    (hs : Splits cap (remainingOf plan already) s s' pushed left) :
    (paidItems plan already pushed ++ left).Perm plan := by
  unfold paidItems
  rw [List.append_assoc]
  exact (hs.perm.append_left _).trans (perm_already_remaining h)

/-- The leaves are what the plan has beside the wallets paid. -/
theorem Splits.left_eq_remainingOf {total : Nat} (h : ValidPlan plan total) {s s' : Split}
    {pushed left : List EpochPlanItem} {cap : Nat}
    (hs : Splits cap (remainingOf plan already) s s' pushed left) :
    left = remainingOf plan ((paidItems plan already pushed).map (·.wallet)) := by
  have hnodup : ((remainingOf plan already).map (·.wallet)).Nodup :=
    h.nodup.sublist (List.filter_sublist.map _)
  rw [hs.left_eq hnodup, remainingOf_eq h, remainingOf_eq h, List.filter_filter]
  refine List.filter_congr fun p hp => ?_
  have hmem : p.wallet ∈ (paidItems plan already pushed).map (·.wallet) ↔
      p.wallet ∈ already ∨ p.wallet ∈ pushed.map (·.wallet) := by
    unfold paidItems
    rw [List.map_append, List.mem_append]
    refine or_congr_left ⟨fun hin => ?_, fun hin => ?_⟩
    · obtain ⟨q, hq, heq⟩ := List.mem_map.mp hin
      exact heq ▸ of_decide_eq_true (List.mem_filter.mp hq).2
    · exact List.mem_map_of_mem (List.mem_filter.mpr ⟨hp, decide_eq_true hin⟩)
  simp only [hmem, not_or, Bool.decide_and, Bool.and_comm]

/-- The pushes of a split stay within the total, and below the cap where there are any. -/
theorem Splits.bounds {total cap : Nat} (h : ValidPlan plan total) {s s' : Split}
    {pushed left : List EpochPlanItem} (hs : Splits cap (remainingOf plan already) s s' pushed left)
    (hpushed : planTotal (plan.filter (·.wallet ∈ already)) = s.pushedTotal) :
    s'.pushedTotal + planTotal left = total ∧ (pushed ≠ [] → s'.pushedTotal ≤ cap) := by
  have htotal := planTotal_perm (hs.paid_perm h)
  unfold paidItems at htotal
  rw [planTotal_append, planTotal_append, h.total, hpushed] at htotal
  have hadd := hs.pushedTotal
  refine ⟨by omega, fun hne => ?_⟩
  obtain ⟨p, rest, rfl⟩ := List.exists_cons_of_ne_nil hne
  have hmem : p ∈ plan := (hs.paid_perm h).mem_iff.mp (by simp [paidItems])
  have hp := h.pos p hmem
  have hcap := hs.cap
  rw [planTotal_cons] at hadd
  omega

/-- The leaves rebuilt after `finalize_epoch`, and the rows written of them, are those of the split
exactly when the rows of `payouts` add up. -/
theorem repair_iff {total cap : Nat} (hplan : ValidPlan plan total) {s s' : Split}
    {pushed left : List EpochPlanItem} (hs : Splits cap (remainingOf plan already) s s' pushed left)
    {e : Epoch} (hpaidTotal : planTotal (paidItems plan already pushed) = e.pushedAmount.toNat)
    {tree : Option EpochMerkleTree} {leaves : List MerkleLeafRow}
    (htree : epochTree env e.index.toNat (sortByWallet env left) = .ok tree)
    (hroot : treeRoot tree = e.merkleRoot)
    (hleaves : finalizedRows env e.index.toNat tree = .ok leaves)
    {kept : List (EpochPlanItem × RowWriter)} {events : List EpochPlanItem}
    (hrec : Recorded kept events (paidItems plan already pushed)) :
    ((∃ found, reconcile (storedRows kept) events e.pushedAmount.toNat = some found ∧
        repairMerkle env plan found = sortByWallet env left) ∧
      repairRows env e plan (storedRows kept) events = some leaves) ↔ RowsAddUp kept := by
  have hpaidPerm := hs.paid_perm hplan
  have hpaidNodup : ((paidItems plan already pushed).map (·.wallet)).Nodup :=
    ((hpaidPerm.map _).nodup_iff.mpr hplan.nodup).sublist (by simp)
  have hpaidPos : ∀ p ∈ paidItems plan already pushed, 0 < p.amount := fun p hp =>
    hplan.pos p (hpaidPerm.mem_iff.mp (List.mem_append_left _ hp))
  constructor
  · intro h
    obtain ⟨⟨found, hfound, hrepair⟩, hrows⟩ := h
    have hread : ∀ r ∈ storedRows kept, r.amount < 2 ^ 63 := by
      by_contra hlarge
      have hread : readPushed (storedRows kept) = none := if_neg hlarge
      simp [repairRows, hread] at hrows
    refine ⟨hread, ?_⟩
    rw [← hpaidTotal] at hfound
    refine rows_total_of_reconcile hpaidNodup hrec hfound ?_
    -- a wallet that was paid and not found would be a leaf
    intro p hp
    by_contra hnot
    have hplanned : p ∈ plan := hpaidPerm.mem_iff.mp (List.mem_append_left _ hp)
    have hleaf : p ∈ repairMerkle env plan found := by
      refine (perm_sortByWallet _).mem_iff.mpr (List.mem_filter.mpr ⟨hplanned, ?_⟩)
      simp only [hplan.pos p hplanned, hnot, not_false_eq_true, and_self, decide_true]
    rw [hrepair, (perm_sortByWallet left).mem_iff, hs.left_eq_remainingOf hplan] at hleaf
    have hfresh := (of_decide_eq_true (List.mem_filter.mp hleaf).2).2
    exact hfresh (List.mem_map_of_mem hp)
  · intro hsum
    obtain ⟨found, hfound, hkeys⟩ := reconcile_of_rowsAddUp hpaidNodup hpaidPos hrec hsum
    rw [hpaidTotal] at hfound
    have hrepair : repairMerkle env plan found = sortByWallet env left := by
      rw [repairMerkle_congr fun p _ => hkeys p.wallet, ← hs.left_eq_remainingOf hplan]
    refine ⟨⟨found, hfound, hrepair⟩, ?_⟩
    have hread : readPushed (storedRows kept) = some (storedRows kept) :=
      readPushed_eq_some.mpr ⟨hsum.1, rfl⟩
    unfold repairRows
    simp only [hread, hfound, Option.bind_eq_bind, Option.bind_some, hrepair, htree,
      Except.toOption, hroot, if_true, hleaves]

/-- A valid plan of the epoch's total, some of whose wallets were pushed for the epoch's
`pushed_amount`, is split without loss or overlap. The chunks of the pushes pass the
program's checks in turn, and the leaves fill the epoch. The leaves rebuilt after
`finalize_epoch` from the plan and the pushes, and their rows, are the same exactly when the
rows of `payouts` add up. -/
theorem partition_and_repair (hplan : ValidPlan plan acc.totalAmount.toNat)
    (hpushed : planTotal (plan.filter (·.wallet ∈ already)) = acc.pushedAmount.toNat)
    (hbps : cfg.maxPushPerEpochBps.toNat ≤ 10000) (infos : List Bool) :
    let s := splitPlan cfg acc plan already infos
    let merkle := sortByWallet env s.merkle
    (s.pushable ++ merkle).Perm (remainingOf plan already) ∧
    (∀ p ∈ s.pushable, ∀ q ∈ merkle, p.wallet ≠ q.wallet) ∧
    ∃ (batches : List (List PayoutItem)) (e : Epoch) (tree : Option EpochMerkleTree)
      (merkleTotal : UInt64)
        (leaves : List MerkleLeafRow),
      (chunks s.pushable).mapM encodeItems = some batches ∧
      (∀ items ∈ batches, items.length ≤ maxPushItems) ∧
      pushesAfter cfg acc batches = .ok e ∧ e.pushedAmount.toNat = s.pushedTotal ∧
      epochTree env acc.index.toNat merkle = .ok tree ∧
      finalizedRows env acc.index.toNat tree = .ok leaves ∧
      merkleTotal.toNat = treeTotal tree ∧
      treeTotal tree = acc.totalAmount.toNat - e.pushedAmount.toNat ∧
      finalizeCheck e merkleTotal = .ok () ∧
      (∀ keeper, cfg.paused = false → cfg.isAdminOrKeeper keeper = true → acc.finalized = false →
        recordFinalize cfg e keeper (treeRoot tree) merkleTotal =
          .ok { e with merkleRoot := treeRoot tree, merkleTotal, finalized := true }) ∧
      ∀ kept events, Recorded kept events (paidItems plan already s.pushable) →
        (((∃ pushed, reconcile (storedRows kept) events e.pushedAmount.toNat = some pushed ∧
            repairMerkle env plan pushed = merkle) ∧
          repairRows env { e with merkleRoot := treeRoot tree, merkleTotal, finalized := true }
            plan (storedRows kept) events = some leaves) ↔ RowsAddUp kept) := by
  intro s merkle
  have hlt := acc.totalAmount.toNat_lt
  obtain ⟨pushed, left, hs⟩ := splitRemaining_spec
    (keeperPushCap acc.totalAmount.toNat cfg.maxPushPerEpochBps.toNat)
    (remainingOf plan already) infos
    { pushable := [], merkle := [], pushedTotal := acc.pushedAmount.toNat }
  change Splits _ _ _ s _ _ at hs
  have hpushable : s.pushable = pushed := by simpa using hs.pushable
  have hmerkle : s.merkle = left := by simpa using hs.merkle
  have hleft : merkle.Perm left := hmerkle ▸ perm_sortByWallet s.merkle
  have hnodup : ((remainingOf plan already).map (·.wallet)).Nodup :=
    hplan.nodup.sublist (List.filter_sublist.map _)
  obtain ⟨hfill, hcap⟩ := hs.bounds hplan hpushed
  have hadd := hs.pushedTotal
  simp only at hadd
  rw [hpushable]
  refine ⟨(hleft.append_left _).trans hs.perm, fun p hp q hq => ?_, ?_⟩
  · exact hs.disjoint hnodup hp (hleft.mem_iff.mp hq)
  -- the pushes
  obtain ⟨batches, hbatches⟩ := exists_encodeChunks (show planTotal pushed < 2 ^ 64 by omega)
  have henc : batches.map (·.map planItem) = chunks pushed :=
    (mapM_eq_some fun _ _ => encodeItems_eq_some).mp hbatches
  have hflat : batches.flatten.map planItem = pushed := by
    rw [List.map_flatten, henc, flatten_chunks]
  have hpaidPerm := hs.paid_perm hplan
  have hpos : ∀ it ∈ batches.flatten, 0 < it.amount.toNat := by
    intro it hit
    have hmem : planItem it ∈ pushed := hflat ▸ List.mem_map_of_mem hit
    exact hplan.pos (planItem it) (hpaidPerm.mem_iff.mp (by simp [paidItems, hmem]))
  have htotal : itemTotal batches.flatten = planTotal pushed := by rw [itemTotal_eq, hflat]
  obtain ⟨last, hlast, hlastNat⟩ := @pushesAfter_ok cfg acc batches hpos (by omega) (by
    intro hne
    have hne' : pushed ≠ [] := by
      intro hnil
      rw [hnil] at henc
      exact hne (List.map_eq_nil_iff.mp henc)
    have hle := hcap hne'
    rw [pushCap_eq hbps]
    omega)
  -- the leaves
  have hmerkleTotal : planTotal merkle = planTotal left := planTotal_perm hleft
  have hleavesNodup : (merkle.map (·.wallet)).Nodup :=
    (hleft.map _).nodup_iff.mpr (hnodup.sublist (hs.left_sublist.map _))
  obtain ⟨tree, leaves, htree, hleaves, htreeTotal⟩ :=
    @exists_epochTree env merkle acc.index.toNat hleavesNodup (by omega)
  obtain ⟨merkleTotal, hmt⟩ := exists_toU64 (show treeTotal tree < 2 ^ 64 by omega)
  rw [toU64_eq_some] at hmt
  refine ⟨batches, { acc with pushedAmount := last }, tree, merkleTotal, leaves,
    hbatches, ?_, hlast,
    ?_, htree, hleaves, hmt, ?_, finalizeCheck_ok ?_, ?_, fun kept events hrec => ?_⟩
  · intro items hitems
    have hchunk : items.map planItem ∈ chunks pushed := henc ▸ List.mem_map_of_mem hitems
    have hlen := length_of_mem_chunks hchunk
    rwa [List.length_map] at hlen
  · simp only
    omega
  · simp only
    omega
  · simp only
    omega
  · intro keeper hpaused hauth hopen
    have hcheck : finalizeCheck { acc with pushedAmount := last } merkleTotal = .ok () :=
      finalizeCheck_ok (by simp only; omega)
    rw [recordFinalize_eq, require_of hpaused, require_of hauth, require_of hopen, hcheck]
    rfl
  · have hpaidTotal : planTotal (paidItems plan already pushed) = last.toNat := by
      unfold paidItems
      rw [planTotal_append, hpushed]
      omega
    have hsorted : merkle = sortByWallet env left := congrArg (sortByWallet env) hmerkle
    rw [hsorted] at htree ⊢
    exact repair_iff (e := { acc with
      pushedAmount := last, merkleRoot := treeRoot tree, merkleTotal, finalized := true })
      hplan hs hpaidTotal htree rfl hleaves hrec

end Plans

namespace Sample

open Distributor.Sample (walletA walletB walletC)

def base58Digits : List Char := "123456789ABCDEFGHJKLMNPQRSTUVWXYZabcdefghijkmnopqrstuvwxyz".toList

/-- The base58 digits of a number, the most significant first. -/
def toBase58 : (fuel n : Nat) → List Char → List Char
  | 0, _, acc => acc
  | fuel + 1, n, acc =>
      if n = 0 then acc else toBase58 fuel (n / 58) (base58Digits.getD (n % 58) '1' :: acc)

/-- A key's text: a leading zero byte is a `1`. -/
def base58 (key : Pubkey) : String :=
  let zeros := (key.bytes.takeWhile (· = 0)).map fun _ => '1'
  String.ofList (zeros ++ toBase58 44 (key.bytes.foldl (fun n b => n * 256 + b.toNat) 0) [])

/-- A wallet's balance is worth 1 USD at 2 or at 1000 memecoins, by the candle. -/
def minBase (close : String) (coinPrice : Nat) : Option Nat :=
  if coinPrice = 100000000 then
    if close = "0.5" then some 2000000 else if close = "0.001" then some 1000000000 else none
  else none

def env : KeeperEnv where
  keeper := Bytes32.fill 0x08
  pool := Bytes32.fill 0x0c
  coinMint := Bytes32.fill 0x04
  epochPdaFor := fun index => Bytes32.fill (UInt8.ofNat (index + 2))
  base58 := base58
  keccak256 := Distributor.Sample.keccak256
  excludedAddresses := [Bytes32.fill 0x0c]
  feeCycleIntervalSec := 900
  worthOpening := fun vaultBaseUnits coinPrice => decide (50 * 10 ^ 8 ≤ vaultBaseUnits * coinPrice)
  minHolding := true
  minBase := minBase

def plan : List EpochPlanItem :=
  [{ wallet := walletA, amount := 10 }, { wallet := walletB, amount := 20 },
    { wallet := walletC, amount := 30 }]

/-- An epoch of 60 units, 10 of them pushed. -/
def acc : Epoch where
  pool := Bytes32.fill 0x0c
  index := 0
  coinMint := Bytes32.fill 0x04
  startTs := 0
  endTs := 900
  totalAmount := 60
  pushedAmount := 10
  merkleRoot := Bytes32.fill 0
  merkleTotal := 0
  claimedAmount := 0
  eligibleHolders := 3
  twabTotal := 1000
  finalized := false

/-- What the rows say of the pushes of `plan`: the keeper's of `walletB` is missing. -/
def keptRows : List (EpochPlanItem × RowWriter) :=
  [({ wallet := walletA, amount := 10 }, .keeper)]

/-- A share that is no multiple of a hundred, above 1.01e18. -/
def largeItem : EpochPlanItem where
  wallet := walletA
  amount := 1010000000000000001

def largePlan : List EpochPlanItem :=
  [largeItem, { wallet := walletB, amount := 1010000000000000099 }]

/-- An epoch of 2020000000000000100 units. -/
def largeAcc : Epoch := { acc with totalAmount := 2020000000000000100, pushedAmount := 0 }

end Sample

/-- `walletA` was pushed before; the cap admits `walletB` and leaves `walletC` to claim. The
row of `walletB` is missing, and the leaves are found again. -/
theorem partition_and_repair_sample :
    let s := splitPlan Distributor.Sample.config Sample.acc Sample.plan
      [Distributor.Sample.walletA] [true, true]
    (s.pushable ++ sortByWallet Sample.env s.merkle).Perm
        (remainingOf Sample.plan [Distributor.Sample.walletA]) ∧
      s.pushable = [{ wallet := Distributor.Sample.walletB, amount := 20 }] ∧
      ∃ pushed, reconcile (storedRows Sample.keptRows)
          (paidItems Sample.plan [Distributor.Sample.walletA] s.pushable) 30 = some pushed ∧
        repairMerkle Sample.env Sample.plan pushed = sortByWallet Sample.env s.merkle := by
  intro s
  have hplan : ValidPlan Sample.plan Sample.acc.totalAmount.toNat :=
    ⟨by decide +kernel, by decide +kernel, by decide +kernel⟩
  obtain ⟨hperm, -, batches, e, tree, merkleTotal, leaves, -, -, -, htotal, -, -, -, -, -, -,
      hrepair⟩ :=
    @partition_and_repair Sample.env Distributor.Sample.config Sample.acc Sample.plan
    [Distributor.Sample.walletA] hplan (by decide +kernel) (by decide) [true, true]
  have hpushed : e.pushedAmount.toNat = 30 := htotal.trans (by decide +kernel)
  have hrec : Recorded Sample.keptRows
      (paidItems Sample.plan [Distributor.Sample.walletA] s.pushable)
      (paidItems Sample.plan [Distributor.Sample.walletA] s.pushable) :=
    ⟨by decide +kernel, List.Subperm.refl _, .inr (List.Perm.refl _)⟩
  have hsum : RowsAddUp Sample.keptRows := rowsAddUp_of_lt (by decide)
  obtain ⟨⟨pushed, hfound, hmerkle⟩, -⟩ := (hrepair Sample.keptRows _ hrec).mpr hsum
  rw [hpushed] at hfound
  exact ⟨hperm, by decide +kernel, pushed, hfound, hmerkle⟩

/-- The keeper's row of a large push is rounded, so it does not add up to the pushes, with the
event or without; the rows of the leaves are not written, whatever was posted. -/
theorem rounded_row_unrepaired :
    let s := splitPlan Distributor.Sample.config Sample.largeAcc Sample.largePlan [] [true, false]
    ValidPlan Sample.largePlan Sample.largeAcc.totalAmount.toNat ∧
      s.pushable = [Sample.largeItem] ∧
      Recorded [(Sample.largeItem, .keeper)] s.pushable
        (paidItems Sample.largePlan [] s.pushable) ∧
      ∀ merkleRoot merkleTotal, repairRows Sample.env
        { Sample.largeAcc with pushedAmount := 1010000000000000001, merkleRoot, merkleTotal,
                               finalized := true }
        Sample.largePlan (storedRows [(Sample.largeItem, .keeper)]) s.pushable = none := by
  intro s
  have hpushable : s.pushable = [Sample.largeItem] := by decide +kernel
  have hread : readPushed (storedRows [(Sample.largeItem, .keeper)]) =
      some (storedRows [(Sample.largeItem, .keeper)]) := by decide +kernel
  have hlost : reconcile (storedRows [(Sample.largeItem, .keeper)]) [Sample.largeItem]
      (1010000000000000001 : UInt64).toNat = none := by decide +kernel
  refine ⟨⟨by decide +kernel, by decide +kernel, by decide +kernel⟩, hpushable, ?_, ?_⟩
  · rw [hpushable]
    exact ⟨by decide +kernel, by decide +kernel, .inl (by decide +kernel)⟩
  · intro merkleRoot merkleTotal
    unfold repairRows
    simp only [hpushable, hread, hlost, Option.bind_eq_bind, Option.bind_some, Option.bind_none]

end IceMarkets.Keeper
