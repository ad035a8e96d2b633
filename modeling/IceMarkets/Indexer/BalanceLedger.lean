import IceMarkets.Indexer.Attribution

/-!
# IceMarkets.Indexer.BalanceLedger

What the balance tables say of a wallet after transactions are ingested, in any order
and any number of times each.

`Account` is what the tables hold of one wallet in one pool. Writing a transaction's
deltas touches it at most once (`account_ingest`), and a transaction whose signature is
there is not written again, so the account lists each transaction's delta once
(`Records`).
-/

namespace IceMarkets.Indexer

open InsertionMap

/-! ### One wallet's account -/

/-- What the tables hold of a wallet in a pool. -/
structure Account where
  events : List BalanceEvent
  balance : Option Balance
  deriving DecidableEq, Repr

def Db.account (db : Db) (pool wallet : String) : Account where
  events := db.events.filter fun r => r.pool = pool ∧ r.wallet = wallet
  balance := db.balances.lookup (pool, wallet)

/-- `writeBalanceDelta`, on the account of the delta. -/
def Account.write (tx : NormalizedTx) (acc : Account) (d : DecodedBalanceDelta) : Account :=
  if acc.events.any fun r => r.sig = tx.signature then acc
  else {
    events := acc.events ++ [{ pool := d.pool, wallet := d.wallet, delta := d.delta, slot := tx.slot
                               ts := tx.blockTime, sig := tx.signature }]
    balance := some (addBalance d.delta tx.slot acc.balance) }

section Account

variable {pool wallet : String}

theorem eventSum_eq (db : Db) :
    db.eventSum pool wallet = ((db.account pool wallet).events.map (·.delta)).sum := rfl

theorem balance_eq (db : Db) :
    db.balance pool wallet = (((db.account pool wallet).balance).map (·.amount)).getD 0 := rfl

theorem account_write_self (tx : NormalizedTx) (db : Db) (d : DecodedBalanceDelta) :
    (writeBalanceDelta tx db d).account d.pool d.wallet =
      (db.account d.pool d.wallet).write tx d := by
  have hany : (db.events.any fun r => r.pool = d.pool ∧ r.wallet = d.wallet ∧
    r.sig = tx.signature) =
      (db.account d.pool d.wallet).events.any fun r => r.sig = tx.signature := by
    simp [Db.account, List.any_filter, Bool.and_assoc]
  unfold writeBalanceDelta Account.write
  rw [hany]
  split_ifs with h
  · rfl
  · simp [Db.account]

theorem account_write_ne (tx : NormalizedTx) (db : Db) {d : DecodedBalanceDelta}
    (h : ¬ (d.pool = pool ∧ d.wallet = wallet)) :
    (writeBalanceDelta tx db d).account pool wallet = db.account pool wallet := by
  have hkey : (pool, wallet) ≠ (d.pool, d.wallet) := by
    intro heq
    exact h ⟨(congrArg Prod.fst heq).symm, (congrArg Prod.snd heq).symm⟩
  unfold writeBalanceDelta
  split_ifs with hany
  · rfl
  · simp [Db.account, h, lookup_upsert_ne hkey]

/-- A loop of writes acts on an account by the deltas that are its own. -/
theorem account_foldl_write (tx : NormalizedTx) (db : Db) (ds : List DecodedBalanceDelta) :
    (ds.foldl (writeBalanceDelta tx) db).account pool wallet =
      (ds.filter fun d => d.pool = pool ∧ d.wallet = wallet).foldl (Account.write tx)
        (db.account pool wallet) := by
  induction ds generalizing db with
  | nil => rfl
  | cons d ds ih =>
      rw [List.foldl_cons, ih]
      by_cases h : d.pool = pool ∧ d.wallet = wallet
      · obtain ⟨rfl, rfl⟩ := h
        simp [account_write_self]
      · rw [account_write_ne tx db h, List.filter_cons_of_neg (by simpa using h)]

end Account

/-! ### The deltas of one account -/

/-- The entry of a key, in a list without duplicate keys. -/
theorem filter_fst_eq {V : Type*} {m : List (String × V)} (h : (m.map Prod.fst).Nodup)
    (k : String) :
    m.filter (fun kv => kv.1 = k) = (m.lookup k).toList.map (k, ·) := by
  induction m with
  | nil => rfl
  | cons kv m ih =>
      obtain ⟨k', v⟩ := kv
      rw [List.map_cons, List.nodup_cons] at h
      by_cases hk : k' = k
      · subst hk
        have hrest : m.filter (fun kv => decide (kv.1 = k')) = [] := by
          rw [List.filter_eq_nil_iff]
          intro kv hkv heq
          exact h.1 (List.mem_map.mpr ⟨kv, hkv, of_decide_eq_true heq⟩)
        simp [hrest]
      · simp [hk, List.lookup_cons, beq_eq_false_iff_ne.mpr (Ne.symm hk), ih h.2]

theorem nodup_ownerBaseDeltas (tx : NormalizedTx) (pool : PoolRef) :
    ((ownerBaseDeltas tx pool).map Prod.fst).Nodup :=
  (nodup_fold _ _ _ (by simp)).sublist (List.filter_sublist.map _)

/-- A wallet's deltas in a pool are none or one, the net delta. -/
theorem lookup_ownerBaseDeltas (tx : RpcTx) (pool : PoolRef) (wallet : String) :
    (ownerBaseDeltas (normalize tx) pool).lookup wallet =
      if netDelta tx pool wallet = 0 then none else some (netDelta tx pool wallet) := by
  unfold netDelta
  cases hl : (ownerBaseDeltas (normalize tx) pool).lookup wallet with
  | none => rfl
  | some v =>
      have hmem := (mem_iff_lookup (nodup_ownerBaseDeltas _ pool)).mpr hl
      have hne : v ≠ 0 := by
        have h := (List.mem_filter.mp hmem).2
        simpa using h
      simp [hne]

section Decode

variable {tx : RpcTx} {pools : List PoolRef} {pool : PoolRef} {dbcPool wallet : String}

/-- What a pool's decoded deltas hold for a pool address and a wallet. -/
theorem filter_poolDeltas (pool : PoolRef) :
    ((ownerBaseDeltas (normalize tx) pool).map fun kv =>
      ({ pool := pool.dbcPool, wallet := kv.1, delta := kv.2 } : DecodedBalanceDelta)).filter
        (fun d => d.pool = dbcPool ∧ d.wallet = wallet) =
      if pool.dbcPool = dbcPool then
        if netDelta tx pool wallet = 0 then []
        else [{ pool := dbcPool, wallet, delta := netDelta tx pool wallet }]
      else [] := by
  by_cases h : pool.dbcPool = dbcPool
  · have hentry := filter_fst_eq (nodup_ownerBaseDeltas (normalize tx) pool) wallet
    rw [lookup_ownerBaseDeltas] at hentry
    rw [List.filter_map]
    simp only [Function.comp_def, h, true_and, if_true]
    rw [hentry]
    split_ifs <;> simp
  · rw [if_neg h, List.filter_eq_nil_iff]
    intro d hd
    obtain ⟨kv, -, rfl⟩ := List.mem_map.mp hd
    simp [h]

theorem filter_decode_of_not_mem (h : dbcPool ∉ pools.map (·.dbcPool)) :
    (decodeBalanceDeltas (normalize tx) pools).filter
      (fun d => d.pool = dbcPool ∧ d.wallet = wallet) = [] := by
  unfold decodeBalanceDeltas
  split_ifs with hfailed
  · rfl
  · rw [List.filter_flatMap, List.flatMap_eq_nil_iff]
    intro pool hpool
    rw [filter_poolDeltas, if_neg]
    intro heq
    exact h (List.mem_map.mpr ⟨pool, hpool, heq⟩)

/-- Pools are decoded one by one, so a wallet has at most one delta in a pool. -/
theorem filter_decode_of_mem (hok : tx.failed = false) (hnodup : (pools.map (·.dbcPool)).Nodup)
    (hpool : pool ∈ pools) :
    (decodeBalanceDeltas (normalize tx) pools).filter
        (fun d => d.pool = pool.dbcPool ∧ d.wallet = wallet) =
      if netDelta tx pool wallet = 0 then []
      else [{ pool := pool.dbcPool, wallet, delta := netDelta tx pool wallet }] := by
  have hfailed : (normalize tx).failed = false := hok
  induction pools with
  | nil => cases hpool
  | cons pool' pools ih =>
      rw [List.map_cons, List.nodup_cons] at hnodup
      have hsplit : decodeBalanceDeltas (normalize tx) (pool' :: pools) =
          ((ownerBaseDeltas (normalize tx) pool').map fun kv =>
            ({ pool := pool'.dbcPool, wallet := kv.1, delta := kv.2 } : DecodedBalanceDelta)) ++
            decodeBalanceDeltas (normalize tx) pools := by
        simp [decodeBalanceDeltas, hfailed]
      rw [hsplit, List.filter_append, filter_poolDeltas]
      rcases List.mem_cons.mp hpool with rfl | hmem
      · rw [if_pos rfl, filter_decode_of_not_mem hnodup.1, List.append_nil]
      · have hne : pool'.dbcPool ≠ pool.dbcPool := by
          intro heq
          exact hnodup.1 (List.mem_map.mpr ⟨pool, hmem, heq.symm⟩)
        rw [if_neg hne, List.nil_append]
        exact ih hnodup.2 hmem

/-- A transaction that did not touch the memecoin has no delta in the pool. -/
theorem netDelta_of_untouched (h : pool.baseMint ∉ touchedMints (normalize tx)) :
    netDelta tx pool wallet = 0 := by
  have hnil : (normalize tx).tokenDeltas.filter (pool.Counts ·) = [] := by
    rw [List.filter_eq_nil_iff]
    intro d hd hc
    exact h (List.mem_map.mpr ⟨d, hd, (of_decide_eq_true hc).1⟩)
  unfold netDelta ownerBaseDeltas
  rw [hnil]
  rfl

/-- Without a row for the pool, nothing is written for it. -/
theorem account_ingest_of_not_mem (db : Db) (hpool : dbcPool ∉ pools.map (·.dbcPool)) :
    (ingest pools tx db).account dbcPool wallet = db.account dbcPool wallet := by
  unfold ingest writeBalanceDeltas
  dsimp only
  rw [account_foldl_write, filter_decode_of_not_mem]
  · rfl
  · intro h
    exact hpool ((List.filter_sublist.map _).subset h)

/-- What ingesting a transaction does to a wallet's account. -/
theorem account_ingest_of_mem (db : Db) (hok : tx.failed = false)
    (hnodup : (pools.map (·.dbcPool)).Nodup) (hpool : pool ∈ pools) :
    (ingest pools tx db).account pool.dbcPool wallet =
      if netDelta tx pool wallet = 0 then db.account pool.dbcPool wallet
      else (db.account pool.dbcPool wallet).write (normalize tx)
        { pool := pool.dbcPool, wallet, delta := netDelta tx pool wallet } := by
  unfold ingest writeBalanceDeltas
  dsimp only
  rw [account_foldl_write]
  by_cases htouched : pool.baseMint ∈ touchedMints (normalize tx)
  · have hmem : pool ∈ pools.filter (·.baseMint ∈ touchedMints (normalize tx)) :=
      List.mem_filter.mpr ⟨hpool, by simpa using htouched⟩
    rw [filter_decode_of_mem hok (hnodup.sublist (List.filter_sublist.map _)) hmem]
    split_ifs with hzero
    · rfl
    · rfl
  · rw [if_pos (netDelta_of_untouched htouched), filter_decode_of_not_mem]
    · rfl
    · intro h
      obtain ⟨pool', hpool', heq⟩ := List.mem_map.mp h
      obtain ⟨hpool', htouched'⟩ := List.mem_filter.mp hpool'
      obtain rfl := List.inj_on_of_nodup_map hnodup hpool' hpool heq
      exact htouched (of_decide_eq_true htouched')

end Decode

/-! ### Ingesting a sequence -/

/-- One call of `ingestTransaction`, with the pools registered then. -/
structure Ingestion where
  tx : RpcTx
  pools : List PoolRef
  deriving DecidableEq, Repr

/-- The tables after a list of calls. -/
def ingestAll (ings : List Ingestion) : Db :=
  ings.foldl (fun db g => ingest g.pools g.tx db) { events := [], balances := [] }

/-- A call ingests one of `txs`, under the registered pool's memecoin, with `wallet` owning
none of the pool's vaults. -/
structure Ingestion.Fits (txs : List RpcTx) (dbcPool mint wallet : String)
    (g : Ingestion) : Prop where
  known : g.tx ∈ txs
  unique : (g.pools.map (·.dbcPool)).Nodup
  mint : ∀ pool ∈ g.pools, pool.dbcPool = dbcPool → pool.baseMint = mint
  vault : ∀ pool ∈ g.pools, pool.dbcPool = dbcPool → OwnsNoVault g.tx pool wallet

/-- The calls ingest the transactions of a list, in any order and any number of times, each
at least once with the pool registered. -/
structure Ingests (txs : List RpcTx) (dbcPool mint wallet : String)
    (ings : List Ingestion) : Prop where
  fits : ∀ g ∈ ings, g.Fits txs dbcPool mint wallet
  covered : ∀ tx ∈ txs, ∃ g ∈ ings, g.tx = tx ∧ dbcPool ∈ g.pools.map (·.dbcPool)

/-- The row of a transaction that credits a wallet. -/
def eventOf (dbcPool mint wallet : String) (tx : RpcTx) : Option BalanceEvent :=
  let delta := tx.sum (credited mint wallet)
  if delta = 0 then none
  else some { pool := dbcPool, wallet, delta, slot := tx.slot, ts := tx.blockTime,
              sig := tx.signature }

/-- The account lists the rows of the transactions `seen`, and its balance is their sum. -/
structure Account.Records (acc : Account) (dbcPool mint wallet : String)
    (seen : List RpcTx) : Prop where
  events : acc.events = seen.filterMap (eventOf dbcPool mint wallet)
  balance : (acc.balance.map (·.amount)).getD 0 = (acc.events.map (·.delta)).sum

section Records

variable {txs seen : List RpcTx} {tx : RpcTx} {acc : Account} {dbcPool mint wallet : String}

/-- A transaction's row is there if the transaction was seen and credits the wallet. -/
theorem Account.Records.any_sig (h : acc.Records dbcPool mint wallet seen)
    (hsig : (txs.map (·.signature)).Nodup) (hseen : ∀ tx' ∈ seen, tx' ∈ txs) (htx : tx ∈ txs)
    (hne : tx.sum (credited mint wallet) ≠ 0) :
    (acc.events.any fun r => r.sig = (normalize tx).signature) = true ↔ tx ∈ seen := by
  rw [List.any_eq_true]
  constructor
  · intro hany
    obtain ⟨r, hr, heq⟩ := hany
    rw [h.events] at hr
    obtain ⟨tx', htx', hrow⟩ := List.mem_filterMap.mp hr
    have hrsig : r.sig = tx'.signature := by
      unfold eventOf at hrow
      dsimp only at hrow
      split_ifs at hrow with hzero
      cases hrow
      rfl
    have hsame : tx'.signature = tx.signature := hrsig.symm.trans (of_decide_eq_true heq)
    rw [← List.inj_on_of_nodup_map hsig (hseen tx' htx') htx hsame]
    exact htx'
  · intro hmem
    rw [h.events]
    refine ⟨_, List.mem_filterMap.mpr ⟨tx, hmem, if_neg hne⟩, ?_⟩
    simp [normalize]

/-- Ingesting a transaction again changes nothing; a new one is recorded. -/
theorem Account.Records.ingest {σ σ' : World} {db : Db} {g : Ingestion}
    (h : (db.account dbcPool wallet).Records dbcPool mint wallet seen)
    (hsig : (txs.map (·.signature)).Nodup) (hseen : ∀ tx' ∈ seen, tx' ∈ txs)
    (hfits : g.Fits txs dbcPool mint wallet) (happ : Applies σ g.tx σ')
    (hpool : dbcPool ∈ g.pools.map (·.dbcPool)) :
    ((Indexer.ingest g.pools g.tx db).account dbcPool wallet).Records dbcPool mint wallet
      (if g.tx ∈ seen then seen else seen ++ [g.tx]) := by
  obtain ⟨pool, hrow, rfl⟩ := List.mem_map.mp hpool
  have hnet : netDelta g.tx pool wallet = g.tx.sum (credited mint wallet) := by
    rw [happ.netDelta_eq (hfits.vault pool hrow rfl), hfits.mint pool hrow rfl]
  rw [account_ingest_of_mem db happ.ok hfits.unique hrow, hnet]
  by_cases hzero : g.tx.sum (credited mint wallet) = 0
  · rw [if_pos hzero]
    split_ifs with hmem
    · exact h
    · refine ⟨?_, h.balance⟩
      rw [h.events, List.filterMap_append]
      simp [eventOf, hzero]
  · rw [if_neg hzero]
    have hany := h.any_sig hsig hseen hfits.known hzero
    by_cases hmem : g.tx ∈ seen
    · rw [if_pos hmem, Account.write, if_pos (hany.mpr hmem)]
      exact h
    · rw [if_neg hmem, Account.write, if_neg (mt hany.mp hmem)]
      constructor
      · dsimp only
        rw [h.events, List.filterMap_append]
        simp [eventOf, hzero, normalize]
      · have hbal := h.balance
        dsimp only
        rw [List.map_append, List.sum_append, ← hbal]
        cases (db.account pool.dbcPool wallet).balance with
        | none => simp [addBalance]
        | some b => simp [addBalance]

/-- The account after any calls records the transactions ingested with the pool registered,
each once. -/
theorem exists_records {σ σ' : World} (hrun : Lts.Run Applies σ txs σ')
    (hsig : (txs.map (·.signature)).Nodup) {ings : List Ingestion}
    (hfits : ∀ g ∈ ings, g.Fits txs dbcPool mint wallet) :
    ∃ seen : List RpcTx, seen.Nodup ∧
      (∀ tx, tx ∈ seen ↔ ∃ g ∈ ings, g.tx = tx ∧ dbcPool ∈ g.pools.map (·.dbcPool)) ∧
      ((ingestAll ings).account dbcPool wallet).Records dbcPool mint wallet seen := by
  induction ings using List.reverseRecOn with
  | nil => exact ⟨[], List.nodup_nil, by simp, rfl, rfl⟩
  | append_singleton ings g ih =>
      obtain ⟨seen, hnodup, hmem, hrec⟩ := ih fun g' hg' => hfits g' (List.mem_append_left _ hg')
      have hg := hfits g (List.mem_append_right _ List.mem_cons_self)
      have hlast : ingestAll (ings ++ [g]) = Indexer.ingest g.pools g.tx (ingestAll ings) := by
        simp [ingestAll]
      rw [hlast]
      by_cases hpool : dbcPool ∈ g.pools.map (·.dbcPool)
      · obtain ⟨τ, τ', happ⟩ := hrun.exists_step hg.known
        have hseen : ∀ tx' ∈ seen, tx' ∈ txs := by
          intro tx' htx'
          obtain ⟨g', hg', rfl, -⟩ := (hmem tx').mp htx'
          exact (hfits g' (List.mem_append_left _ hg')).known
        refine ⟨_, ?_, ?_, hrec.ingest hsig hseen hg happ hpool⟩
        · split_ifs with h
          · exact hnodup
          · simpa using hnodup.concat h
        · intro tx
          have hsplit : (∃ g' ∈ ings ++ [g], g'.tx = tx ∧ dbcPool ∈ g'.pools.map (·.dbcPool)) ↔
              tx ∈ seen ∨ g.tx = tx := by
            rw [hmem tx]
            simp only [List.mem_append, List.mem_singleton, or_and_right, exists_or,
              exists_eq_left, hpool, and_true]
          rw [hsplit]
          split_ifs with h
          · constructor
            · exact Or.inl
            · intro hx
              rcases hx with htx | rfl
              · exact htx
              · exact h
          · simp [eq_comm]
      · refine ⟨seen, hnodup, ?_, ?_⟩
        · intro tx
          rw [hmem tx]
          simp only [List.mem_append, List.mem_singleton, or_and_right, exists_or,
            exists_eq_left, hpool, and_false, or_false]
        · rw [account_ingest_of_not_mem _ hpool]
          exact hrec

/-- The recorded deltas sum to what the recorded transactions credit. -/
theorem sum_eventOf (dbcPool mint wallet : String) (seen : List RpcTx) :
    ((seen.filterMap (eventOf dbcPool mint wallet)).map (·.delta)).sum =
      (seen.map fun tx => tx.sum (credited mint wallet)).sum := by
  induction seen with
  | nil => rfl
  | cons tx seen ih =>
      by_cases hzero : tx.sum (credited mint wallet) = 0
      · simp [eventOf, hzero, ← ih]
      · simp [eventOf, hzero, ← ih]

/-- Recorded rows carry the signatures of the recorded transactions, in order. -/
theorem sigs_sublist (dbcPool mint wallet : String) (seen : List RpcTx) :
    ((seen.filterMap (eventOf dbcPool mint wallet)).map (·.sig)).Sublist
      (seen.map (·.signature)) := by
  induction seen with
  | nil => exact List.Sublist.refl _
  | cons tx seen ih =>
      by_cases hzero : tx.sum (credited mint wallet) = 0
      · simp only [eventOf, hzero, List.filterMap_cons, if_true, List.map_cons]
        exact ih.cons _
      · simp only [eventOf, hzero, List.filterMap_cons, if_false, List.map_cons]
        exact ih.cons_cons _

/-- Over a run, what the transactions credit a wallet with is the change of its holdings,
but for accounts that changed hands. -/
theorem sum_credited {σ σ' : World} (hrun : Lts.Run Applies σ txs σ') (mint wallet : String) :
    (txs.map fun tx => tx.sum (credited mint wallet)).sum +
        (txs.map fun tx => tx.sum (takenOver mint wallet)).sum =
      σ'.holding mint wallet - σ.holding mint wallet +
        (txs.map fun tx => tx.sum (handedAway mint wallet)).sum := by
  induction hrun with
  | nil σ => simp
  | cons head _ ih =>
      have hstep := head.sum_credited mint wallet
      simp only [List.map_cons, List.sum_cons]
      omega

end Records

/-! ### The ledger and the holdings -/

/-- After every transaction of a run was ingested, a wallet's `balance_events` and its
`balances.amount` are the change of its holdings, each transaction counted once, exactly
when the accounts handed away within a transaction held after it what the accounts taken
over did. -/
theorem balances_eq_holdings {σ σ' : World} {txs : List RpcTx} {ings : List Ingestion}
    {dbcPool mint wallet : String} (hrun : Lts.Run Applies σ txs σ')
    (hsig : (txs.map (·.signature)).Nodup) (hing : Ingests txs dbcPool mint wallet ings) :
    ((ingestAll ings).eventSum dbcPool wallet = σ'.holding mint wallet - σ.holding mint wallet ∧
      (ingestAll ings).balance dbcPool wallet = σ'.holding mint wallet - σ.holding mint wallet ∧
      (((ingestAll ings).events.filter fun r =>
        r.pool = dbcPool ∧ r.wallet = wallet).map (·.sig)).Nodup) ↔
    (txs.map fun tx => tx.sum (handedAway mint wallet)).sum =
      (txs.map fun tx => tx.sum (takenOver mint wallet)).sum := by
  obtain ⟨seen, hnodup, hmem, hrec⟩ := exists_records hrun hsig hing.fits
  have hperm : seen.Perm txs := by
    rw [List.perm_ext_iff_of_nodup hnodup (List.Nodup.of_map _ hsig)]
    intro tx
    rw [hmem tx]
    constructor
    · intro hx
      obtain ⟨g, hg, rfl, -⟩ := hx
      exact (hing.fits g hg).known
    · exact hing.covered tx
  have hsum : (ingestAll ings).eventSum dbcPool wallet =
      (txs.map fun tx => tx.sum (credited mint wallet)).sum := by
    rw [eventSum_eq, hrec.events, sum_eventOf]
    exact (hperm.map _).sum_eq
  have hbalance : (ingestAll ings).balance dbcPool wallet =
      (ingestAll ings).eventSum dbcPool wallet := by
    rw [balance_eq, hrec.balance, eventSum_eq]
  have honce : (((ingestAll ings).events.filter fun r =>
      r.pool = dbcPool ∧ r.wallet = wallet).map (·.sig)).Nodup := by
    change (((ingestAll ings).account dbcPool wallet).events.map (·.sig)).Nodup
    rw [hrec.events]
    exact ((hperm.map _).nodup_iff.mpr hsig).sublist (sigs_sublist dbcPool mint wallet seen)
  have hchange := sum_credited hrun mint wallet
  rw [hbalance, hsum]
  constructor
  · intro h
    omega
  · intro h
    exact ⟨by omega, by omega, honce⟩

/-! ### Sample -/

namespace Sample

/-- The world of a list of accounts. -/
def world (l : List (String × Holding)) : World where
  get a := l.lookup a
  accounts := (l.map Prod.fst).toFinset
  mem_accounts a h hget := by
    rw [List.mem_toFinset]
    by_contra hnot
    rw [lookup_eq_none hnot] at hget
    cases hget

def entry (accountIndex : Nat) (h : Holding) : RpcTokenBalance :=
  { accountIndex, mint := h.mint, owner := some h.owner, amount := h.amount, decimals := 6 }

/-- The accounts among `keys`, as the RPC lists them. -/
def listing (keys : List String) (σ : World) : List RpcTokenBalance :=
  keys.zipIdx.filterMap fun (a, i) => (σ.get a).map (entry i)

theorem lists_listing (keys : List String) (σ : World) : Lists keys σ (listing keys σ) where
  nodup := by
    have hsub : ∀ l : List (String × Nat), ((l.filterMap fun (a, i) =>
        (σ.get a).map (entry i)).map (·.accountIndex)).Sublist (l.map Prod.snd) := by
      intro l
      induction l with
      | nil => exact List.Sublist.refl _
      | cons kv l ih =>
          obtain ⟨a, i⟩ := kv
          cases h : σ.get a with
          | none => simpa [h] using ih.cons i
          | some hold => simpa [h, entry] using ih.cons_cons i
    have hindex : (keys.zipIdx.map Prod.snd).Nodup := by
      rw [List.zipIdx_map_snd]
      exact List.nodup_range'
    exact hindex.sublist (hsub _)
  sound := by
    intro b hb
    obtain ⟨⟨a, i⟩, hmem, hb⟩ := List.mem_filterMap.mp hb
    obtain ⟨h, hget, rfl⟩ := Option.map_eq_some_iff.mp hb
    exact ⟨a, h, List.mk_mem_zipIdx_iff_getElem?.mp hmem, hget, rfl, rfl, rfl⟩
  complete := by
    intro i a h ha hget
    have hentry : (σ.get a).map (entry i) = some (entry i h) := by rw [hget, Option.map_some]
    exact ⟨entry i h, List.mem_filterMap.mpr
      ⟨(a, i), List.mk_mem_zipIdx_iff_getElem?.mpr ha, hentry⟩, rfl⟩

/-- A transaction between two worlds. -/
def tx (signature : String) (keys : List String) (σ σ' : World) : RpcTx :=
  { signature, slot := 7, blockTime := 70, failed := false, keys, pre := listing keys σ
    post := listing keys σ' }

theorem applies_tx {signature : String} {keys : List String} {σ σ' : World} (hkeys : keys.Nodup)
    (hframe : ∀ a, a ∉ keys → σ'.get a = σ.get a) : Applies σ (tx signature keys σ σ') σ' where
  ok := rfl
  keys_nodup := hkeys
  pre := lists_listing keys σ
  post := lists_listing keys σ'
  frame := hframe

def holding (owner : String) (amount : Nat) (h : owner ≠ "") : Holding :=
  { mint := "coin", owner, amount, owner_ne := h }

def keys : List String := ["first", "second"]

def start : World := world [("first", holding "alice" 100 (by decide))]

/-- 40 of alice's 100 were sent to bob. -/
def sent : World :=
  world [("first", holding "alice" 60 (by decide)), ("second", holding "bob" 40 (by decide))]

/-- Bob's account was emptied into alice's, and closed. -/
def returned : World := world [("first", holding "alice" 100 (by decide))]

/-- Alice's account was made bob's. -/
def given : World := world [("first", holding "bob" 100 (by decide))]

def pool : PoolRef :=
  { dbcPool := "pool", baseMint := "coin", baseVault := some "vault", dammBaseVault := none }

/-- Accounts other than the two do not exist. -/
theorem get_of_not_mem {l : List (String × Holding)} (hl : ∀ kv ∈ l, kv.1 ∈ keys) {a : String}
    (ha : a ∉ keys) : (world l).get a = none := by
  refine lookup_eq_none fun h => ha ?_
  obtain ⟨kv, hkv, rfl⟩ := List.mem_map.mp h
  exact hl kv hkv

/-- Any two worlds of the two accounts are a transaction apart. -/
theorem applies_world {signature : String} {l l' : List (String × Holding)}
    (hl : ∀ kv ∈ l, kv.1 ∈ keys) (hl' : ∀ kv ∈ l', kv.1 ∈ keys) :
    Applies (world l) (tx signature keys (world l) (world l')) (world l') :=
  applies_tx (by decide) fun a ha => by rw [get_of_not_mem hl ha, get_of_not_mem hl' ha]

def send : RpcTx := tx "one" keys start sent
def sendBack : RpcTx := tx "two" keys sent returned
def give : RpcTx := tx "three" keys start given

/-- The transfers, the second first, one of them before the pool was registered and both twice. -/
def calls : List Ingestion :=
  [{ tx := send, pools := [] }, { tx := sendBack, pools := [pool] },
    { tx := send, pools := [pool] },
    { tx := sendBack, pools := [pool] }]

theorem fits_pool {txs : List RpcTx} {t : RpcTx} {wallet : String} (ht : t ∈ txs)
    (hvault : ∀ b ∈ t.pre ++ t.post, accountKey t.keys b.accountIndex ≠ "vault") :
    ({ tx := t, pools := [pool] } : Ingestion).Fits txs "pool" "coin" wallet where
  known := ht
  unique := by simp
  mint := by simp [pool]
  vault := by
    intro p hp _ b hb hv
    obtain rfl := List.mem_singleton.mp hp
    simp only [pool, PoolRef.vaults] at hv
    have hkey := hvault b hb
    simp [Ne.symm hkey] at hv

end Sample

open Sample in
/-- A transfer and its return, ingested backwards and twice. -/
theorem balances_eq_holdings_sample :
    (ingestAll calls).eventSum "pool" "bob" =
        returned.holding "coin" "bob" - start.holding "coin" "bob" ∧
      (ingestAll calls).balance "pool" "bob" =
        returned.holding "coin" "bob" - start.holding "coin" "bob" ∧
      (((ingestAll calls).events.filter fun r =>
        r.pool = "pool" ∧ r.wallet = "bob").map (·.sig)).Nodup := by
  have hrun : Lts.Run Applies start [send, sendBack] returned :=
    .cons (applies_world (by decide) (by decide)) (.single (applies_world (by decide) (by decide)))
  have hing : Ingests [send, sendBack] "pool" "coin" "bob" calls := by
    constructor
    · intro g hg
      simp only [calls, List.mem_cons, List.not_mem_nil, or_false] at hg
      rcases hg with rfl | rfl | rfl | rfl
      · exact { known := by simp, unique := by simp, mint := by simp, vault := by simp }
      all_goals exact fits_pool (by simp) (by decide +kernel)
    · intro t ht
      simp only [List.mem_cons, List.not_mem_nil, or_false] at ht
      rcases ht with rfl | rfl
      · exact ⟨{ tx := send, pools := [pool] }, by simp [calls], rfl, by decide⟩
      · exact ⟨{ tx := sendBack, pools := [pool] }, by simp [calls], rfl, by decide⟩
  exact (balances_eq_holdings hrun (by decide) hing).mpr (by decide +kernel)

open Sample in
/-- An account given away takes its tokens from one wallet to another, and no row says so. -/
theorem balances_ne_holdings :
    ¬ ∀ (σ σ' : World) (txs : List RpcTx) (ings : List Ingestion) (dbcPool mint wallet : String),
      Lts.Run Applies σ txs σ' → (txs.map (·.signature)).Nodup →
        Ingests txs dbcPool mint wallet ings →
        (ingestAll ings).eventSum dbcPool wallet = σ'.holding mint wallet - σ.holding mint wallet ∧
        (ingestAll ings).balance dbcPool wallet =
          σ'.holding mint wallet - σ.holding mint wallet := by
  intro h
  have hrun : Lts.Run Applies start [give] given :=
    .single (applies_world (by decide) (by decide))
  have hing : Ingests [give] "pool" "coin" "alice" [{ tx := give, pools := [pool] }] := by
    refine ⟨?_, ?_⟩
    · intro g hg
      obtain rfl := List.mem_singleton.mp hg
      exact fits_pool (by simp) (by decide +kernel)
    · intro t ht
      obtain rfl := List.mem_singleton.mp ht
      exact ⟨_, List.mem_cons_self, rfl, by decide⟩
  have hsum := (h _ _ _ _ _ _ _ hrun (by decide) hing).1
  exact absurd hsum (by decide +kernel)

end IceMarkets.Indexer
