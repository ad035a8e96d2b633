import IceMarkets.Indexer.Balances
import IceMarkets.Lib.Run
import Mathlib.Algebra.BigOperators.Fin

/-!
# IceMarkets.Indexer.Attribution

What one transaction's deltas say of a wallet, against what it did to the wallet's
holdings.

`World` is the state of all token accounts, `Applies` how a transaction changes it and
lists the accounts it touches. A transaction is credited to whoever owned each account
before it, so an account that changes hands is credited to its old owner:
`netDelta_eq` says by how much the two differ.
-/

namespace IceMarkets.Indexer

open InsertionMap

/-! ### Token accounts -/

/-- A token account. -/
structure Holding where
  mint : String
  owner : String
  amount : Nat
  owner_ne : owner ≠ ""
  deriving DecidableEq, Repr

/-- All token accounts. -/
structure World where
  get : String → Option Holding
  accounts : Finset String
  mem_accounts : ∀ a h, get a = some h → a ∈ accounts

/-- The account is `wallet`'s and of `mint`. -/
def Holding.IsOf (mint wallet : String) (h : Holding) : Prop := h.mint = mint ∧ h.owner = wallet

instance (mint wallet : String) : DecidablePred (Holding.IsOf mint wallet) :=
  fun h => inferInstanceAs (Decidable (h.mint = mint ∧ h.owner = wallet))

/-- The amount of `mint` in a token account, if it is `wallet`'s. -/
def held (mint wallet : String) (h : Option Holding) : Int :=
  h.elim 0 fun h => if h.IsOf mint wallet then h.amount else 0

/-- The total of `mint` in token accounts owned by `wallet`. -/
def World.holding (σ : World) (mint wallet : String) : Int :=
  ∑ a ∈ σ.accounts, held mint wallet (σ.get a)

/-- `l` lists the token accounts among `keys`, each with what it holds in `σ`. -/
structure Lists (keys : List String) (σ : World) (l : List RpcTokenBalance) : Prop where
  nodup : (l.map (·.accountIndex)).Nodup
  sound : ∀ b ∈ l, ∃ a h, keys[b.accountIndex]? = some a ∧ σ.get a = some h ∧ b.mint = h.mint ∧
    b.owner = some h.owner ∧ b.amount = h.amount
  complete : ∀ i a h, keys[i]? = some a → σ.get a = some h → ∃ b ∈ l, b.accountIndex = i

/-- A successful transaction leads from `σ` to `σ'`. -/
structure Applies (σ : World) (tx : RpcTx) (σ' : World) : Prop where
  ok : tx.failed = false
  keys_nodup : tx.keys.Nodup
  pre : Lists tx.keys σ tx.pre
  post : Lists tx.keys σ' tx.post
  frame : ∀ a, a ∉ tx.keys → σ'.get a = σ.get a

/-! ### Balances by index -/

/-- The balance of an account in a list. -/
def balanceAt (l : List RpcTokenBalance) (i : Nat) : Option RpcTokenBalance :=
  l.find? (·.accountIndex = i)

/-- The balance is `wallet`'s and of `mint`. -/
def RpcTokenBalance.IsOf (mint wallet : String) (b : RpcTokenBalance) : Prop :=
  b.mint = mint ∧ b.owner = some wallet

instance (mint wallet : String) : DecidablePred (RpcTokenBalance.IsOf mint wallet) :=
  fun b => inferInstanceAs (Decidable (b.mint = mint ∧ b.owner = some wallet))

/-- What a listed balance gives `wallet` of `mint`. -/
def listed (mint wallet : String) (b : Option RpcTokenBalance) : Int :=
  b.elim 0 fun b => if b.IsOf mint wallet then b.amount else 0

/-- What an account of `wallet` that the transaction handed to another owner (or, closed
and created again, to another mint) held after it. -/
def handedAway (mint wallet : String) (p q : Option RpcTokenBalance) : Int :=
  match p, q with
  | some p, some q => if p.IsOf mint wallet ∧ ¬ q.IsOf mint wallet then q.amount else 0
  | _, _ => 0

/-- What an account that the transaction handed to `wallet` held after it. -/
def takenOver (mint wallet : String) (p q : Option RpcTokenBalance) : Int :=
  match p, q with
  | some p, some q => if q.IsOf mint wallet ∧ ¬ p.IsOf mint wallet then q.amount else 0
  | _, _ => 0

/-- What the indexer credits `wallet` with for an account: all of its change, if the account
was `wallet`'s before, or is since it was created. -/
def credited (mint wallet : String) (p q : Option RpcTokenBalance) : Int :=
  match p, q with
  | some p, q => if p.IsOf mint wallet then (q.elim 0 fun q => (q.amount : Int)) - p.amount else 0
  | none, some q => if q.IsOf mint wallet then q.amount else 0
  | none, none => 0

/-- What is credited is what changed, but for accounts that changed hands. -/
theorem credited_eq (mint wallet : String) (p q : Option RpcTokenBalance) :
    credited mint wallet p q + takenOver mint wallet p q =
      listed mint wallet q - listed mint wallet p + handedAway mint wallet p q := by
  cases p with
  | none =>
      cases q with
      | none => rfl
      | some q => simp [credited, takenOver, handedAway, listed]
  | some p =>
      cases q with
      | none =>
          by_cases hp : p.IsOf mint wallet
          · simp [credited, takenOver, handedAway, listed, hp]
          · simp [credited, takenOver, handedAway, listed, hp]
      | some q =>
          by_cases hp : p.IsOf mint wallet
          · by_cases hq : q.IsOf mint wallet
            · simp [credited, takenOver, handedAway, listed, hp, hq]
            · simp only [credited, takenOver, handedAway, listed, Option.elim, hp, hq]
              simp
              omega
          · by_cases hq : q.IsOf mint wallet
            · simp [credited, takenOver, handedAway, listed, hp, hq]
            · simp [credited, takenOver, handedAway, listed, hp, hq]

/-- A quantity of an account before and after, summed over a transaction's accounts. -/
def RpcTx.sum (tx : RpcTx) (f : Option RpcTokenBalance → Option RpcTokenBalance → Int) : Int :=
  ∑ i ∈ Finset.range tx.keys.length, f (balanceAt tx.pre i) (balanceAt tx.post i)

section Lists

variable {keys : List String} {σ : World} {l : List RpcTokenBalance}

theorem balanceAt_eq_some (hl : (l.map (·.accountIndex)).Nodup) {i : Nat} {b : RpcTokenBalance} :
    balanceAt l i = some b ↔ b ∈ l ∧ b.accountIndex = i := by
  unfold balanceAt
  constructor
  · intro h
    exact ⟨List.mem_of_find?_eq_some h, by simpa using List.find?_some h⟩
  · intro hx
    obtain ⟨hb, rfl⟩ := hx
    cases hf : l.find? fun b' => decide (b'.accountIndex = b.accountIndex) with
    | none => simpa using List.find?_eq_none.mp hf b hb
    | some b' =>
        have heq : b'.accountIndex = b.accountIndex := by simpa using List.find?_some hf
        rw [List.inj_on_of_nodup_map hl (List.mem_of_find?_eq_some hf) hb heq]

/-- The items of an index are the balance at that index. -/
theorem filter_accountIndex (hl : (l.map (·.accountIndex)).Nodup) (i : Nat) :
    l.filter (fun b => decide (b.accountIndex = i)) = (balanceAt l i).toList := by
  unfold balanceAt
  induction l with
  | nil => rfl
  | cons b l ih =>
      rw [List.map_cons, List.nodup_cons] at hl
      by_cases h : b.accountIndex = i
      · have hrest : l.filter (fun b => decide (b.accountIndex = i)) = [] := by
          rw [List.filter_eq_nil_iff]
          intro b' hb' heq
          exact hl.1 (List.mem_map.mpr ⟨b', hb', (of_decide_eq_true heq).trans h.symm⟩)
        simp [h, hrest]
      · simp [h, ih hl.2]

/-- The listed balances are the accounts' holdings. -/
theorem Lists.listed_eq (h : Lists keys σ l) {i : Nat} {a : String} (ha : keys[i]? = some a)
    (mint wallet : String) : listed mint wallet (balanceAt l i) = held mint wallet (σ.get a) := by
  cases hb : balanceAt l i with
  | some b =>
      obtain ⟨hmem, rfl⟩ := (balanceAt_eq_some h.nodup).mp hb
      obtain ⟨a', hold, ha', hget, hmint, howner, hamount⟩ := h.sound b hmem
      obtain rfl := Option.some.inj (ha'.symm.trans ha)
      have hiff : b.IsOf mint wallet ↔ hold.IsOf mint wallet := by
        unfold RpcTokenBalance.IsOf Holding.IsOf
        simp [hmint, howner]
      simp [listed, held, hget, hiff, hamount]
  | none =>
      cases hget : σ.get a with
      | none => rfl
      | some hold =>
          obtain ⟨b, hmem, hi⟩ := h.complete i a hold ha hget
          rw [(balanceAt_eq_some h.nodup).mpr ⟨hmem, hi⟩] at hb
          cases hb

/-- A sum over a transaction's keys, by index. -/
theorem sum_keys (hkeys : keys.Nodup) (f : Option Holding → Int) {g : Nat → Int}
    (hg : ∀ i a, keys[i]? = some a → g i = f (σ.get a)) :
    ∑ i ∈ Finset.range keys.length, g i = ∑ a ∈ keys.toFinset, f (σ.get a) := by
  rw [List.sum_toFinset _ hkeys, ← Fin.sum_univ_eq_sum_range, ← Fin.sum_univ_fun_getElem]
  refine Finset.sum_congr rfl fun i _ => hg i _ ?_
  exact List.getElem?_eq_getElem i.isLt

/-- Every listed balance has an index among the keys and an owner. -/
theorem Lists.lt_length (h : Lists keys σ l) {b : RpcTokenBalance} (hb : b ∈ l) :
    b.accountIndex < keys.length := by
  obtain ⟨a, hold, ha, -⟩ := h.sound b hb
  exact (List.getElem?_eq_some_iff.mp ha).1

theorem Lists.owner (h : Lists keys σ l) {b : RpcTokenBalance} (hb : b ∈ l) :
    ∃ o, b.owner = some o ∧ o ≠ "" := by
  obtain ⟨a, hold, -, -, -, howner, -⟩ := h.sound b hb
  exact ⟨hold.owner, howner, hold.owner_ne⟩

end Lists

/-! ### Holdings -/

section Holdings

variable {σ σ' : World} {tx : RpcTx}

/-- The change of a wallet's holdings is that of the accounts the transaction lists. -/
theorem Applies.holding_sub (h : Applies σ tx σ') (mint wallet : String) :
    σ'.holding mint wallet - σ.holding mint wallet =
      tx.sum fun p q => listed mint wallet q - listed mint wallet p := by
  have hkeys := h.keys_nodup
  -- both totals, over one set of accounts
  have hsum : ∀ τ : World, ∀ s : Finset String, τ.accounts ⊆ s →
      τ.holding mint wallet = ∑ a ∈ s, held mint wallet (τ.get a) := by
    intro τ s hs
    refine Finset.sum_subset hs fun a _ ha => ?_
    cases hget : τ.get a with
    | none => rfl
    | some hold => exact absurd (τ.mem_accounts a hold hget) ha
  have hunion := hsum σ (σ.accounts ∪ σ'.accounts ∪ tx.keys.toFinset) (by
    intro a ha
    simp [ha])
  have hunion' := hsum σ' (σ.accounts ∪ σ'.accounts ∪ tx.keys.toFinset) (by
    intro a ha
    simp [ha])
  rw [hunion, hunion', ← Finset.sum_sub_distrib]
  have hframe : ∑ a ∈ σ.accounts ∪ σ'.accounts ∪ tx.keys.toFinset,
      (held mint wallet (σ'.get a) - held mint wallet (σ.get a)) =
        ∑ a ∈ tx.keys.toFinset, (held mint wallet (σ'.get a) - held mint wallet (σ.get a)) := by
    refine (Finset.sum_subset Finset.subset_union_right fun a _ ha => ?_).symm
    rw [h.frame a (by simpa using ha), sub_self]
  rw [hframe, Finset.sum_sub_distrib]
  unfold RpcTx.sum
  rw [Finset.sum_sub_distrib, sum_keys hkeys (held mint wallet)
    fun i a ha => h.post.listed_eq ha mint wallet,
    sum_keys hkeys (held mint wallet) fun i a ha => h.pre.listed_eq ha mint wallet]

end Holdings

/-! ### Credited deltas -/

/-- What the transaction's rows give `wallet` in `pool`. -/
def netDelta (tx : RpcTx) (pool : PoolRef) (wallet : String) : Int :=
  ((ownerBaseDeltas (normalize tx) pool).lookup wallet).getD 0

/-- `wallet` owns none of the pool's vaults, before or after the transaction. -/
def OwnsNoVault (tx : RpcTx) (pool : PoolRef) (wallet : String) : Prop :=
  ∀ b ∈ tx.pre ++ tx.post, accountKey tx.keys b.accountIndex ∈ pool.vaults →
    b.owner ≠ some wallet

/-- The entry of an account in `byIndex`. -/
def touchedOf (p q : Option RpcTokenBalance) : Option Touched :=
  let e := p.map fun b => { touch b none with pre := b.amount }
  match q with
  | none => e
  | some b => some { touch b e with post := b.amount }

theorem lookup_byIndex {pre post : List RpcTokenBalance} (hpre : (pre.map (·.accountIndex)).Nodup)
    (hpost : (post.map (·.accountIndex)).Nodup) (i : Nat) :
    (byIndex pre post).lookup i = touchedOf (balanceAt pre i) (balanceAt post i) := by
  unfold byIndex touchedOf
  rw [lookup_fold, lookup_fold, filter_accountIndex hpre, filter_accountIndex hpost]
  cases balanceAt pre i <;> cases balanceAt post i <;> rfl

/-- The entry's change is what the indexer credits. -/
theorem elim_touchedOf {mint wallet : String} {p q : Option RpcTokenBalance}
    (hp : ∀ b, p = some b → ∃ o, b.owner = some o ∧ o ≠ "")
    (hq : ∀ b, q = some b → ∃ o, b.owner = some o ∧ o ≠ "") :
    ((touchedOf p q).elim 0 fun e =>
      if e.mint = mint ∧ e.owner = wallet then (e.post : Int) - e.pre else 0) =
        credited mint wallet p q := by
  cases p with
  | none =>
      cases q with
      | none => rfl
      | some q =>
          obtain ⟨o, ho, hne⟩ := hq q rfl
          by_cases h : q.IsOf mint wallet
          · obtain ⟨hmint, howner⟩ := h
            simp [touchedOf, touch, credited, RpcTokenBalance.IsOf, hmint, howner]
          · have h' : ¬ (q.mint = mint ∧ o = wallet) := by
              intro hx
              obtain ⟨hmint, rfl⟩ := hx
              exact h ⟨hmint, ho⟩
            simp [touchedOf, touch, credited, h, ho, h']
  | some p =>
      obtain ⟨o, ho, hne⟩ := hp p rfl
      by_cases h : p.IsOf mint wallet
      · obtain ⟨hmint, howner⟩ := h
        obtain rfl := Option.some.inj (ho.symm.trans howner)
        cases q with
        | none => simp [touchedOf, touch, credited, RpcTokenBalance.IsOf, hmint, ho]
        | some q => simp [touchedOf, touch, credited, RpcTokenBalance.IsOf, hmint, ho, hne]
      · have h' : ¬ (p.mint = mint ∧ o = wallet) := by
          intro hx
          obtain ⟨hmint, rfl⟩ := hx
          exact h ⟨hmint, ho⟩
        cases q with
        | none => simp [touchedOf, touch, credited, h, ho, h']
        | some q => simp [touchedOf, touch, credited, h, ho, hne, h']

/-- An account's delta is attributed to an owner one of its two balances names. -/
theorem exists_owner {p q : Option RpcTokenBalance} {e : Touched}
    (hp : ∀ b, p = some b → ∃ o, b.owner = some o ∧ o ≠ "")
    (hq : ∀ b, q = some b → ∃ o, b.owner = some o ∧ o ≠ "") (he : touchedOf p q = some e) :
    e.owner ≠ "" ∧ ∃ b, (p = some b ∨ q = some b) ∧ b.owner = some e.owner := by
  cases p with
  | some p =>
      obtain ⟨o, ho, hne⟩ := hp p rfl
      have howner : e.owner = o := by
        cases q with
        | none =>
            cases he
            simp [touch, ho]
        | some q =>
            cases he
            simp [touch, ho, hne]
      rw [howner]
      exact ⟨hne, p, Or.inl rfl, ho⟩
  | none =>
      cases q with
      | none => cases he
      | some q =>
          obtain ⟨o, ho, hne⟩ := hq q rfl
          cases he
          have howner : (touch q none).owner = o := by simp [touch, ho]
          change (touch q none).owner ≠ "" ∧ _
          refine ⟨by rw [howner]; exact hne, q, Or.inr rfl, ?_⟩
          change q.owner = some (touch q none).owner
          rw [howner, ho]

/-- A sum over deltas is a sum over the accounts touched: unchanged ones add nothing. -/
theorem sum_diff (keys : List String) (mint wallet : String) (es : List (Nat × Touched)) :
    ((es.filterMap fun (index, e) =>
        let delta : Int := e.post - e.pre
        if delta = 0 then none
        else some ({ tokenAccount := accountKey keys index, owner := e.owner, mint := e.mint, delta
                     decimals := e.decimals } : TokenDelta)).map fun d =>
          if d.mint = mint ∧ d.owner = wallet then d.delta else 0).sum =
      (es.map fun kv =>
        if kv.2.mint = mint ∧ kv.2.owner = wallet then (kv.2.post : Int) - kv.2.pre
          else 0).sum := by
  induction es with
  | nil => rfl
  | cons kv es ih =>
      obtain ⟨index, e⟩ := kv
      by_cases h : (e.post : Int) - e.pre = 0
      · simp [h, ih]
      · simp [h, ih]

/-- The rows' sum over a wallet's counted deltas, when all its deltas of the memecoin count. -/
theorem sum_counted {pool : PoolRef} {wallet : String} {ds : List TokenDelta}
    (hds : ∀ d ∈ ds, d.owner = wallet → (pool.Counts d ↔ d.mint = pool.baseMint)) :
    (((ds.filter (pool.Counts ·)).filter (·.owner = wallet)).map (·.delta)).sum =
      (ds.map fun d => if d.mint = pool.baseMint ∧ d.owner = wallet then d.delta else 0).sum := by
  induction ds with
  | nil => rfl
  | cons d ds ih =>
      have hrest := ih fun d hd => hds d (List.mem_cons_of_mem _ hd)
      have hd := hds d List.mem_cons_self
      by_cases howner : d.owner = wallet
      · by_cases hmint : d.mint = pool.baseMint
        · simp [(hd howner).mpr hmint, howner, hmint, ← hrest]
        · simp [mt (hd howner).mp hmint, hmint, ← hrest]
      · by_cases hc : pool.Counts d
        · simp [hc, howner, ← hrest]
        · simp [hc, howner, ← hrest]

section Net

variable {σ σ' : World} {tx : RpcTx} {pool : PoolRef} {wallet : String}

theorem Applies.pre_owner (h : Applies σ tx σ') {i : Nat} {b : RpcTokenBalance}
    (hb : balanceAt tx.pre i = some b) : ∃ o, b.owner = some o ∧ o ≠ "" :=
  h.pre.owner ((balanceAt_eq_some h.pre.nodup).mp hb).1

theorem Applies.post_owner (h : Applies σ tx σ') {i : Nat} {b : RpcTokenBalance}
    (hb : balanceAt tx.post i = some b) : ∃ o, b.owner = some o ∧ o ≠ "" :=
  h.post.owner ((balanceAt_eq_some h.post.nodup).mp hb).1

theorem nodup_byIndex (pre post : List RpcTokenBalance) :
    ((byIndex pre post).map Prod.fst).Nodup :=
  nodup_fold _ _ _ (nodup_fold _ _ _ List.nodup_nil)

theorem Applies.index_lt (h : Applies σ tx σ') {i : Nat}
    (hi : i ∈ (byIndex tx.pre tx.post).map Prod.fst) : i < tx.keys.length := by
  rcases mem_keys_fold.mp hi with ⟨b, hb, rfl⟩ | hi
  · exact h.post.lt_length hb
  · rcases mem_keys_fold.mp hi with ⟨b, hb, rfl⟩ | hi
    · exact h.pre.lt_length hb
    · cases hi

/-- Every memecoin delta of a wallet that owns no vault counts. -/
theorem Applies.counts (h : Applies σ tx σ') (hvault : OwnsNoVault tx pool wallet) :
    ∀ d ∈ (normalize tx).tokenDeltas, d.owner = wallet →
      (pool.Counts d ↔ d.mint = pool.baseMint) := by
  intro d hd howner
  obtain ⟨⟨i, e⟩, hentry, hd⟩ := List.mem_filterMap.mp hd
  dsimp only at hd
  split_ifs at hd with hzero
  cases hd
  have hlookup := (mem_iff_lookup (nodup_byIndex tx.pre tx.post)).mp hentry
  rw [lookup_byIndex h.pre.nodup h.post.nodup] at hlookup
  obtain ⟨hne, b, hb, hbowner⟩ :=
    exists_owner (fun _ => h.pre_owner) (fun _ => h.post_owner) hlookup
  have hbw : b.owner = some wallet := hbowner.trans (congrArg some howner)
  have hfree : accountKey tx.keys i ∉ pool.vaults := by
    intro hv
    rcases hb with hb | hb
    · obtain ⟨hmem, rfl⟩ := (balanceAt_eq_some h.pre.nodup).mp hb
      exact hvault b (List.mem_append_left _ hmem) hv hbw
    · obtain ⟨hmem, rfl⟩ := (balanceAt_eq_some h.post.nodup).mp hb
      exact hvault b (List.mem_append_right _ hmem) hv hbw
  unfold PoolRef.Counts
  simp [hfree, hne]

/-- The rows give a wallet that owns no vault what its accounts are credited with. -/
theorem Applies.netDelta_eq (h : Applies σ tx σ') (hvault : OwnsNoVault tx pool wallet) :
    netDelta tx pool wallet = tx.sum (credited pool.baseMint wallet) := by
  unfold netDelta ownerBaseDeltas
  rw [getD_lookup_filter_ne_zero (nodup_fold _ _ _ (by simp)), getD_lookup_fold_add,
    sum_counted (h.counts hvault)]
  unfold normalize diffTokenBalances
  dsimp only
  rw [sum_diff, sum_entries (nodup_byIndex tx.pre tx.post)
    (fun i hi => Finset.mem_range.mpr (h.index_lt hi)) fun _ (e : Touched) =>
      if e.mint = pool.baseMint ∧ e.owner = wallet then (e.post : Int) - e.pre else 0]
  unfold RpcTx.sum
  refine Finset.sum_congr rfl fun i _ => ?_
  rw [lookup_byIndex h.pre.nodup h.post.nodup]
  exact elim_touchedOf (fun _ => h.pre_owner) (fun _ => h.post_owner)

/-- What the accounts are credited with is the change of the wallet's holdings, but for
accounts that changed hands. -/
theorem Applies.sum_credited (h : Applies σ tx σ') (mint wallet : String) :
    tx.sum (credited mint wallet) + tx.sum (takenOver mint wallet) =
      σ'.holding mint wallet - σ.holding mint wallet + tx.sum (handedAway mint wallet) := by
  rw [h.holding_sub]
  unfold RpcTx.sum
  rw [← Finset.sum_add_distrib, ← Finset.sum_add_distrib]
  exact Finset.sum_congr rfl fun i _ => credited_eq ..

end Net

end IceMarkets.Indexer
