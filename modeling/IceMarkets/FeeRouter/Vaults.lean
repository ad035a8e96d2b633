import IceMarkets.FeeRouter.Migration
import IceMarkets.FeeRouter.Program

/-!
# IceMarkets.FeeRouter.Vaults

What each instruction of the program does to the token accounts, stated once per
instruction and for all accounts together: a claim credits the vaults what its events say,
a withdrawal moves its amount, a registration creates empty accounts.
-/

namespace IceMarkets.FeeRouter

attribute [ext] Router

variable {env : RouterEnv} {s s' : RouterProgram} {r r' : Router}

/-! ### The accounts the handlers see -/

section View

variable {v : Vault}

theorem router_vault : (s.router env).vault v = s.account env v := by
  cases v <;> rfl

theorem account_of_known (hv : v.Known env) : s.account env v =
    (s.ledger (env.address v)).getD
      { mint := Pubkey.default, owner := Pubkey.default, amount := 0 } :=
  if_pos hv

theorem account_of_not_known {pools : Pubkey → Option PoolAccount} {L : Ledger}
    (hv : ¬ v.Known env) :
    RouterProgram.account env { s with pools, ledger := L } v = s.account env v :=
  (if_neg hv).trans (if_neg hv).symm

theorem account_amount (hv : v.Known env) :
    (s.account env v).amount.toNat = s.ledger.amount (env.address v) := by
  rw [account_of_known hv]
  unfold Ledger.amount
  cases s.ledger (env.address v) <;> rfl

theorem account_of_some (hv : v.Known env) {a : TokenAccount}
    (h : s.ledger (env.address v) = some a) : s.account env v = a := by
  rw [account_of_known hv, h]
  rfl

theorem loadKey_eq_ok {u : Unit} : loadKey env v = .ok u ↔ v.Known env := by
  unfold loadKey Vault.Known
  split_ifs with h
  · simp [h]
  · simp [h]

theorem loadPoolAccount_eq_ok {pool : Pubkey} {acc : PoolAccount} :
    loadPoolAccount s pool = .ok acc ↔ s.pools pool = some acc := by
  unfold loadPoolAccount
  rw [liftAnchor_eq_ok]
  cases s.pools pool with
  | none => simp
  | some acc' => simp

theorem loadTokenAccount_eq_ok {L : Ledger} {key mint : Pubkey} {a : TokenAccount} :
    loadTokenAccount L key mint = .ok a ↔ L key = some a ∧ a.mint = mint := by
  unfold loadTokenAccount
  rw [liftAnchor_eq_ok]
  cases L key with
  | none => simp
  | some b =>
      by_cases hmint : b.mint = mint
      · simp only [hmint, if_true, Except.ok.injEq, Option.some.injEq]
        constructor
        · intro hx
          obtain rfl := hx
          exact ⟨rfl, hmint⟩
        · exact fun h => h.1
      · simp only [hmint, if_false, reduceCtorEq, Option.some.injEq, false_iff, not_and]
        intro hx
        obtain rfl := hx
        exact hmint

theorem loadVault_eq_ok {L : Ledger} {mint : Pubkey} {a : TokenAccount} :
    loadVault env L v mint = .ok a ↔ v.Known env ∧
      L (env.address v) = some a ∧ a.mint = mint ∧ a.owner = v.authority env := by
  unfold loadVault
  simp only [bind_eq_ok, loadTokenAccount_eq_ok, liftAnchor_eq_ok, loadKey_eq_ok]
  constructor
  · intro h
    obtain ⟨_, hv, b, ⟨hb, hmint⟩, h⟩ := h
    split_ifs at h with howner
    cases h
    exact ⟨hv, hb, hmint, howner⟩
  · intro hx
    obtain ⟨hv, ha, hmint, howner⟩ := hx
    exact ⟨(), hv, a, ⟨ha, hmint⟩, if_pos howner⟩

theorem loadVaults_ok {L : Ledger} {vs : List (Vault × Pubkey)}
    (h : loadVaults env L vs = .ok ()) {mint : Pubkey} (hv : (v, mint) ∈ vs) :
    v.Known env ∧ L.Holds (env.address v) mint (v.authority env) := by
  induction vs with
  | nil => cases hv
  | cons w vs ih =>
      obtain ⟨w, m⟩ := w
      unfold loadVaults at h
      obtain ⟨a, ha, h⟩ := bind_eq_ok.mp h
      rcases List.mem_cons.mp hv with heq | hv
      · cases heq
        obtain ⟨hknown, ha⟩ := loadVault_eq_ok.mp ha
        exact ⟨hknown, a, ha⟩
      · exact ih h hv

end View

/-! ### Writing back -/

section Store

variable {L : Ledger} {vs : List Vault}

theorem storeVaults_of_not_mem {key : Pubkey} (h : ∀ v ∈ vs, key ≠ env.address v) :
    storeVaults env r L vs key = L key := by
  induction vs generalizing L with
  | nil => rfl
  | cons w vs ih =>
      have hrest := ih (L := Function.update L (env.address w) (some (r.vault w)))
        fun v hv => h v (List.mem_cons_of_mem _ hv)
      rw [storeVaults, List.foldl_cons, ← storeVaults, hrest,
        Function.update_of_ne (h w List.mem_cons_self)]

theorem address_ne {v : Vault} (hvs : ∀ w ∈ vs, w.Known env) (hknown : v.Known env)
    (hv : v ∉ vs) : ∀ w ∈ vs, env.address v ≠ env.address w := by
  intro w hw heq
  exact hv (env.address_injective v w hknown (hvs w hw) heq ▸ hw)

theorem storeVaults_of_mem (hvs : ∀ v ∈ vs, v.Known env) {v : Vault} (h : v ∈ vs) :
    storeVaults env r L vs (env.address v) = some (r.vault v) := by
  induction vs generalizing L with
  | nil => cases h
  | cons w vs ih =>
      rw [storeVaults, List.foldl_cons, ← storeVaults]
      have hrest : ∀ v ∈ vs, v.Known env := fun v hv => hvs v (List.mem_cons_of_mem _ hv)
      by_cases hv : v ∈ vs
      · exact ih hrest hv
      · have hvw : v = w := (List.mem_cons.mp h).resolve_right hv
        subst hvw
        rw [storeVaults_of_not_mem (address_ne hrest (hvs v h) hv), Function.update_self]

/-- Written back, each account is as the handler left it, if the handler left the others. -/
theorem account_storeVaults {pools : Pubkey → Option PoolAccount}
    (hvs : ∀ v ∈ vs, v.Known env) (h : ∀ v, v ∉ vs → r.vault v = s.account env v) (v : Vault) :
    RouterProgram.account env { s with pools, ledger := storeVaults env r s.ledger vs } v =
      r.vault v := by
  by_cases hknown : v.Known env
  · rw [account_of_known hknown]
    by_cases hv : v ∈ vs
    · simp only [storeVaults_of_mem hvs hv]
      rfl
    · simp only [storeVaults_of_not_mem (address_ne hvs hknown hv)]
      rw [h v hv, account_of_known hknown]
  · rw [account_of_not_known hknown]
    exact (h v fun hv => hknown (hvs v hv)).symm

/-- The accounts the handlers see are known by the config, the pools and the vaults. -/
theorem router_eq (hkey : r.key = env.key) (hconfig : r.config = s.config)
    (hpools : ∀ pool, (s.pools pool).map (·.toPoolState) = r.pools pool)
    (hvaults : ∀ v, s.account env v = r.vault v) : s.router env = r := by
  ext1
  · exact hkey.symm
  · exact hconfig.symm
  · exact funext hpools
  · exact funext fun mint => hvaults (.recv mint)
  · exact funext fun pool => hvaults (.holder pool)
  · exact funext fun mint => hvaults (.buyback mint)
  · exact funext fun mint => hvaults (.treasury mint)

end Store

/-! ### What a claim credits -/

namespace ClaimEvents

/-- What the split gave the holders; a split of nothing has no event. -/
def holders (evs : ClaimEvents) : Nat := (evs.split.map (·.holders.toNat)).getD 0

def buyback (evs : ClaimEvents) : Nat := (evs.split.map (·.buyback.toNat)).getD 0

def protocol (evs : ClaimEvents) : Nat := (evs.split.map (·.protocol.toNat)).getD 0

/-- What a claim of `pool` adds to a vault, as its events say. The receiving account only
passes on. -/
def credit (evs : ClaimEvents) (pool baseMint quoteMint : Pubkey) : Vault → Nat
  | .recv _ => 0
  | .holder p => if p = pool then evs.holders else 0
  | .buyback mint => if mint = quoteMint then evs.buyback else 0
  | .treasury mint =>
      (if mint = baseMint then evs.claimed.baseAmount.toNat else 0) +
        if mint = quoteMint then evs.protocol else 0

theorem of_reports {evs : ClaimEvents} {pool : Pubkey} {c : RouterConfig} {amount h b p : Nat}
    (hreports : ReportsSplit pool amount h b p evs.split) (hshares : Shares c amount h b p) :
    evs.holders = h ∧ evs.buyback = b ∧ evs.protocol = p := by
  unfold holders buyback protocol
  cases hsplit : evs.split with
  | none =>
      rw [hsplit] at hreports
      have hsum := hshares.sum
      have hzero : amount = 0 := hreports
      simp only [Option.map_none, Option.getD_none]
      omega
  | some ev =>
      rw [hsplit] at hreports
      exact ⟨hreports.2.1, hreports.2.2.1, hreports.2.2.2⟩

end ClaimEvents

section Credit

variable {f f' : Pubkey → TokenAccount} {k : Pubkey} {n : Nat}

theorem Credits.amount_at (h : Credits f f' k n) (j : Pubkey) :
    (f' j).amount.toNat = (f j).amount.toNat + if j = k then n else 0 := by
  by_cases hj : j = k
  · rw [if_pos hj, hj, h.amount]
  · rw [if_neg hj, h.eq, Function.update_of_ne hj, Nat.add_zero]

/-- Only the amount of an account is written. -/
theorem Credits.same (h : Credits f f' k n) (j : Pubkey) :
    f' j = { f j with amount := (f' j).amount } := by
  by_cases hj : j = k
  · subst hj
    have heq := congrFun h.eq j
    rwa [Function.update_self] at heq
  · have heq := congrFun h.eq j
    rw [Function.update_of_ne hj] at heq
    rw [heq]

/-- One pool was written, and its mints are what they were. -/
def WritesMints (r : Router) (pool : Pubkey) (ps : PoolState) (r' : Router) : Prop :=
  ∃ ps', r'.pools = Function.update r.pools pool (some ps') ∧ ps'.baseMint = ps.baseMint ∧
    ps'.quoteMint = ps.quoteMint

theorem split_mints {pool : Pubkey} {ps : PoolState} {amount : UInt64} {ev : Option FeesSplit}
    (h : split r pool ps amount = .ok (r', ev)) : WritesMints r pool ps r' := by
  obtain ⟨_, _, _, _, hpools⟩ := split_pools h
  exact ⟨_, hpools, rfl, rfl⟩

/-- What `handle_claim_*` did, with the base amount of its event. -/
structure Handled (r : Router) (kind : ClaimKind) (x : ClaimInput) (ps : PoolState) (r' : Router)
    (evs : ClaimEvents) (h b p : Nat) : Prop
    extends ClaimEffect r x ps r' evs evs.claimed.baseAmount.toNat h b p where
  unpaused : r.config.paused = false
  base : kind = .surplus → evs.claimed.baseAmount = 0
  mints : WritesMints r x.pool ps r'

theorem ClaimEnds.mints {x : ClaimInput} {ps : PoolState} {evs : ClaimEvents}
    (hends : ClaimEnds r x ps r' evs) : WritesMints r x.pool ps r' := by
  obtain ⟨treasury, r₁, ts, -, hreceived, hsplit⟩ := hends.split
  have hmints := split_mints hsplit
  unfold WritesMints at hmints
  rwa [receiveQuote_pools hreceived] at hmints

theorem ClaimKind.claims (kind : ClaimKind) (x : ClaimInput) :
    Claims r x (kind.handle r x) := by
  cases kind with
  | dbc => exact .dbc rfl
  | surplus => exact .surplus rfl
  | damm positionNft => exact .damm rfl

theorem ClaimKind.handle_ok {kind : ClaimKind} {x : ClaimInput} {evs : ClaimEvents}
    (hc : r.config.Splits) (h : kind.handle r x = .ok (r', evs)) :
    ∃ ps h b p, Handled r kind x ps r' evs h b p := by
  have hclaims : Claims r x (.ok (r', evs)) := h ▸ kind.claims x
  obtain ⟨ps, hends⟩ := hclaims.ends
  obtain ⟨hh, b, p, heff⟩ := hends.effect hc
  refine ⟨ps, hh, b, p, { heff with unpaused := hends.unpaused, base := ?_, mints := hends.mints }⟩
  rintro rfl
  exact (handleClaimDbcSurplus_ends h).1

variable {x : ClaimInput} {ps : PoolState} {evs : ClaimEvents} {h b p : Nat}

/-- Every vault holds what its claim credits more. -/
theorem ClaimEffect.vault_amount
    (heff : ClaimEffect r x ps r' evs evs.claimed.baseAmount.toNat h b p) (v : Vault) :
    (r'.vault v).amount.toNat =
      (r.vault v).amount.toNat + evs.credit x.pool ps.baseMint ps.quoteMint v := by
  obtain ⟨hh, hb, hp⟩ := ClaimEvents.of_reports heff.reports heff.shares
  cases v with
  | recv mint =>
      simp only [Router.vault, heff.quoteRecv]
      rfl
  | holder pool =>
      simp only [Router.vault, heff.holderVault.amount_at, ClaimEvents.credit, hh]
  | buyback mint =>
      simp only [Router.vault, heff.buybackVault.amount_at, ClaimEvents.credit, hb]
  | treasury mint =>
      obtain ⟨mid, hbase, hquote⟩ := heff.treasury
      simp only [Router.vault, hquote.amount_at, hbase.amount_at, ClaimEvents.credit, hp]
      omega

theorem ClaimEffect.vault_same (heff : ClaimEffect r x ps r' evs n h b p) (v : Vault) :
    r'.vault v = { r.vault v with amount := (r'.vault v).amount } := by
  cases v with
  | recv mint => simp only [Router.vault, heff.quoteRecv]
  | holder pool => exact heff.holderVault.same pool
  | buyback mint => exact heff.buybackVault.same mint
  | treasury mint =>
      obtain ⟨mid, hbase, hquote⟩ := heff.treasury
      have h1 := hbase.same mint
      have h2 := hquote.same mint
      simp only [Router.vault]
      rw [h2, h1]

/-- A vault that gained nothing is what it was. -/
theorem ClaimEffect.vault_eq
    (heff : ClaimEffect r x ps r' evs evs.claimed.baseAmount.toNat h b p) {v : Vault}
    (hv : evs.credit x.pool ps.baseMint ps.quoteMint v = 0) : r'.vault v = r.vault v := by
  have hamount : (r'.vault v).amount = (r.vault v).amount := by
    rw [← UInt64.toNat_inj, heff.vault_amount v, hv, Nat.add_zero]
  rw [heff.vault_same v, hamount]

/-- The accounts a claim does not load gain nothing. -/
theorem ClaimKind.credit_of_not_mem {kind : ClaimKind} {pool : Pubkey} {v : Vault}
    (hbase : kind = .surplus → evs.claimed.baseAmount = 0)
    (hv : v ∉ (kind.vaults pool ps).map Prod.fst) :
    evs.credit pool ps.baseMint ps.quoteMint v = 0 := by
  have hquote : v ≠ .recv ps.quoteMint ∧ v ≠ .holder pool ∧ v ≠ .buyback ps.quoteMint ∧
      v ≠ .treasury ps.quoteMint ∧ (kind ≠ .surplus → v ≠ .treasury ps.baseMint) := by
    unfold ClaimKind.vaults at hv
    cases kind <;> simp_all
  obtain ⟨-, hholder, hbuyback, htreasury, hother⟩ := hquote
  cases v with
  | recv mint => rfl
  | holder p =>
      have hne : p ≠ pool := fun hx => hholder (by rw [hx])
      simp only [ClaimEvents.credit, if_neg hne]
  | buyback mint =>
      have hne : mint ≠ ps.quoteMint := fun hx => hbuyback (by rw [hx])
      simp only [ClaimEvents.credit, if_neg hne]
  | treasury mint =>
      have hne : mint ≠ ps.quoteMint := fun hx => htreasury (by rw [hx])
      simp only [ClaimEvents.credit, if_neg hne, Nat.add_zero, ite_eq_right_iff]
      intro hmint
      by_cases hkind : kind = .surplus
      · rw [hbase hkind]
        rfl
      · exact absurd (by rw [hmint]) (hother hkind)

end Credit

/-! ### Claims on the ledger -/

section Claim

/-- What registration fixed of a pool. -/
structure Listing where
  baseMint : Pubkey
  quoteMint : Pubkey
  dbcConfig : Pubkey
  commodity : Pubkey
  creator : Pubkey
  feeBps : UInt16
  deriving DecidableEq, Repr

def PoolAccount.listing (acc : PoolAccount) : Listing where
  baseMint := acc.baseMint
  quoteMint := acc.quoteMint
  dbcConfig := acc.dbcConfig
  commodity := acc.commodity
  creator := acc.creator
  feeBps := acc.feeBps

/-- What an accepted claim did. -/
structure ClaimDone (env : RouterEnv) (s : RouterProgram) (x : ClaimInput) (acc : PoolAccount)
    (s' : RouterProgram) (evs : ClaimEvents) : Prop where
  pool : s.pools x.pool = some acc
  unpaused : s.config.paused = false
  config : s'.config = s.config
  programs : s'.programs = s.programs
  claims : Claims (s.router env) x (.ok (s'.router env, evs))
  pools : ∃ acc', s'.pools = Function.update s.pools x.pool (some acc') ∧
    acc'.listing = acc.listing ∧
    acc.Counts acc'.toPoolState x.credit.quote.toNat evs.holders evs.buyback evs.protocol
  amount : ∀ v, v.Known env → s'.ledger.amount (env.address v) =
    s.ledger.amount (env.address v) + evs.credit x.pool acc.baseMint acc.quoteMint v
  other : ∀ key, (∀ v, v.Known env → key ≠ env.address v) → s'.ledger key = s.ledger key
  owned : ∀ key owner, s.ledger.OwnedBy key owner → s'.ledger.OwnedBy key owner

theorem handleClaim_ok {kind : ClaimKind} {x : ClaimInput} {evs : ClaimEvents}
    (hc : s.config.Splits) (h : handleClaim env s kind x = .ok (s', evs)) :
    ∃ acc, ClaimDone env s x acc s' evs := by
  unfold handleClaim at h
  obtain ⟨acc, hacc, h⟩ := bind_eq_ok.mp h
  obtain ⟨⟨⟩, hvaults, h⟩ := bind_eq_ok.mp h
  obtain ⟨⟨r', evs'⟩, hhandle, h⟩ := bind_eq_ok.mp h
  cases h
  rw [loadPoolAccount_eq_ok] at hacc
  rw [liftRouter_eq_ok] at hhandle
  obtain ⟨ps, hh, b, p, heff⟩ := ClaimKind.handle_ok (r := s.router env) hc hhandle
  have hps : ps = acc.toPoolState := by
    have hpool := heff.pool
    simp only [RouterProgram.router, hacc, Option.map_some, Option.some.injEq] at hpool
    exact hpool.symm
  subst hps
  set vs := (kind.vaults x.pool acc.toPoolState).map Prod.fst with hvs
  have hknown : ∀ v ∈ vs, v.Known env := by
    intro v hv
    obtain ⟨⟨w, mint⟩, hw, rfl⟩ := List.mem_map.mp hv
    exact (loadVaults_ok hvaults hw).1
  have hkept : ∀ v, v ∉ vs → r'.vault v = s.account env v := by
    intro v hv
    rw [heff.vault_eq (ClaimKind.credit_of_not_mem heff.base hv), router_vault]
  obtain ⟨ps', hpools, hbase, hquote⟩ := heff.mints
  obtain ⟨hholders, hbuyback, hprotocol⟩ := ClaimEvents.of_reports heff.reports heff.shares
  have hwritten : storePool s x.pool acc r' =
      Function.update s.pools x.pool (some { acc with toPoolState := ps' }) := by
    unfold storePool
    rw [hpools, Function.update_self]
    rfl
  have hcounts : acc.Counts ps' x.credit.quote.toNat evs.holders evs.buyback evs.protocol := by
    obtain ⟨ps'', hpools', hcounts⟩ := heff.pools
    have heq : ps'' = ps' := by
      have := congrFun (hpools'.symm.trans hpools) x.pool
      simpa using this
    rw [← heq, hholders, hbuyback, hprotocol]
    exact hcounts
  have hrouter : RouterProgram.router env { s with
      pools := storePool s x.pool acc r', ledger := storeVaults env r' s.ledger vs } = r' := by
    refine router_eq heff.key heff.config ?_ (account_storeVaults hknown hkept)
    intro key
    rw [hpools, hwritten]
    by_cases hkey : key = x.pool
    · subst hkey
      simp
    · simp [RouterProgram.router, hkey]
  refine ⟨acc, {
    pool := hacc
    unpaused := heff.unpaused
    config := rfl
    programs := rfl
    claims := by
      rw [hrouter, ← hhandle]
      exact kind.claims x
    pools := ⟨_, hwritten, ?_, hcounts⟩
    amount := ?_
    other := ?_
    owned := ?_ }⟩
  · simp only [PoolAccount.listing, hbase, hquote]
  · intro v hv
    have hamount := heff.vault_amount v
    rw [router_vault, account_amount hv, ← account_storeVaults hknown hkept v,
      account_amount (s := { s with pools := s.pools, ledger := _ }) hv] at hamount
    exact hamount
  · intro key hkey
    exact storeVaults_of_not_mem fun v hv => hkey v (hknown v hv)
  · intro key owner howner a ha
    by_cases hkey : ∃ v ∈ vs, key = env.address v
    · obtain ⟨v, hv, rfl⟩ := hkey
      change storeVaults env r' s.ledger vs (env.address v) = some a at ha
      rw [storeVaults_of_mem hknown hv] at ha
      -- the account was loaded, so it was there
      obtain ⟨⟨w, mint⟩, hw, rfl⟩ := List.mem_map.mp hv
      obtain ⟨hw, b, hb, -, -⟩ := loadVaults_ok hvaults hw
      have hsame := heff.vault_same w
      rw [router_vault, account_of_some hw hb, Option.some.inj ha] at hsame
      rw [hsame]
      exact howner b hb
    · have hne : ∀ v ∈ vs, key ≠ env.address v := fun v hv heq => hkey ⟨v, hv, heq⟩
      change storeVaults env r' s.ledger vs key = some a at ha
      rw [storeVaults_of_not_mem hne] at ha
      exact howner a ha

end Claim

/-! ### Withdrawals -/

section Withdraw

/-- What an accepted withdrawal did: its amount left the vault for the destination, which may
be any account of the mint, the vault itself or another of the router's included. -/
structure WithdrawDone (env : RouterEnv) (s : RouterProgram) (v : Vault) (destination : Pubkey)
    (amount : UInt64) (s' : RouterProgram) : Prop where
  known : v.Known env
  state : s' = { s with ledger := s'.ledger }
  amount : ∀ key, s'.ledger.amount key + (if key = env.address v then amount.toNat else 0) =
    s.ledger.amount key + if key = destination then amount.toNat else 0
  owned : ∀ key owner, s.ledger.OwnedBy key owner → s'.ledger.OwnedBy key owner
  holds : ∀ key mint owner, s.ledger.Holds key mint owner → s'.ledger.Holds key mint owner

variable {v : Vault} {destination signer : Pubkey} {amount : UInt64} {ev : VaultWithdrawn}

theorem withdrawWith_ok {kind : WithdrawKind} {mint : Pubkey} {checks : ProgramResult Unit}
    (h : withdrawWith env s kind v mint destination amount checks = .ok (s', ev)) :
    checks = .ok () ∧ WithdrawDone env s v destination amount s' := by
  unfold withdrawWith at h
  obtain ⟨vault, hvault, h⟩ := bind_eq_ok.mp h
  obtain ⟨_, -, h⟩ := bind_eq_ok.mp h
  obtain ⟨⟨⟩, hchecks, h⟩ := bind_eq_ok.mp h
  obtain ⟨-, h⟩ := require_bind_eq_ok.mp h
  obtain ⟨L, hL, h⟩ := bind_eq_ok.mp h
  cases h
  rw [liftToken_eq_ok] at hL
  exact ⟨hchecks, {
    known := (loadVault_eq_ok.mp hvault).1
    state := rfl
    amount := Ledger.transfer_amount hL
    owned := fun _ _ howned => howned.transfer hL
    holds := fun _ _ _ hholds => hholds.transfer hL }⟩

theorem handleWithdrawForEpoch_ok {pool : Pubkey}
    (h : handleWithdrawForEpoch env s signer pool destination amount = .ok (s', ev)) :
    (s.config.paused = false ∧ 0 < amount ∧ signer = env.distAuth s.programs.distributor) ∧
      WithdrawDone env s (.holder pool) destination amount s' := by
  unfold handleWithdrawForEpoch at h
  obtain ⟨acc, -, h⟩ := bind_eq_ok.mp h
  obtain ⟨hchecks, hdone⟩ := withdrawWith_ok h
  obtain ⟨hpaused, hchecks⟩ := require_bind_eq_ok.mp hchecks
  obtain ⟨hpos, hchecks⟩ := require_bind_eq_ok.mp hchecks
  exact ⟨⟨hpaused, hpos, require_eq_ok.mp hchecks⟩, hdone⟩

theorem handleWithdrawForBuyback_ok {coinMint : Pubkey}
    (h : handleWithdrawForBuyback env s signer coinMint destination amount = .ok (s', ev)) :
    (s.config.paused = false ∧ 0 < amount ∧ signer = env.bbAuth s.programs.buyback) ∧
      WithdrawDone env s (.buyback coinMint) destination amount s' := by
  obtain ⟨hchecks, hdone⟩ := withdrawWith_ok h
  obtain ⟨hpaused, hchecks⟩ := require_bind_eq_ok.mp hchecks
  obtain ⟨hpos, hchecks⟩ := require_bind_eq_ok.mp hchecks
  exact ⟨⟨hpaused, hpos, require_eq_ok.mp hchecks⟩, hdone⟩

theorem handleWithdrawTreasury_ok {mint : Pubkey}
    (h : handleWithdrawTreasury env s signer mint destination amount = .ok (s', ev)) :
    (s.config.admin = signer ∧ 0 < amount) ∧
      WithdrawDone env s (.treasury mint) destination amount s' := by
  unfold handleWithdrawTreasury at h
  obtain ⟨hadmin, h⟩ := require_bind_eq_ok.mp h
  obtain ⟨hchecks, hdone⟩ := withdrawWith_ok h
  exact ⟨⟨hadmin, require_eq_ok.mp hchecks⟩, hdone⟩

end Withdraw

/-! ### Registrations -/

section Register

/-- Accounts were created, all of them empty and of their authorities. -/
structure Creates (env : RouterEnv) (L L' : Ledger) : Prop where
  amount : ∀ key, L'.amount key = L.amount key
  owned : ∀ v, v.Known env → L.OwnedBy (env.address v) (v.authority env) →
    L'.OwnedBy (env.address v) (v.authority env)
  other : ∀ key, (∀ v, v.Known env → key ≠ env.address v) → L' key = L key

theorem Creates.trans {L₁ L₂ L₃ : Ledger} (h : Creates env L₁ L₂) (h' : Creates env L₂ L₃) :
    Creates env L₁ L₃ where
  amount key := (h'.amount key).trans (h.amount key)
  owned v hv howned := h'.owned v hv (h.owned v hv howned)
  other key hkey := (h'.other key hkey).trans (h.other key hkey)

theorem Creates.initIfNeeded {L L' : Ledger} {v : Vault} {mint : Pubkey} (hv : v.Known env)
    (h : L.initIfNeeded (env.address v) mint (v.authority env) = .ok L') : Creates env L L' := by
  obtain ⟨-, hamount, hother⟩ := Ledger.initIfNeeded_ok h
  constructor
  · exact hamount
  · intro w hw howned
    exact howned.initIfNeeded h fun heq => by rw [env.address_injective w v hw hv heq]
  · exact fun key hkey => hother key (hkey v hv)

theorem initVault_ok {L L' : Ledger} {v : Vault} {mint : Pubkey}
    (h : initVault env L v mint = .ok L') : Creates env L L' := by
  unfold initVault at h
  obtain ⟨_, hv, h⟩ := bind_eq_ok.mp h
  exact .initIfNeeded (loadKey_eq_ok.mp hv) h

theorem initVaults_ok {L L' : Ledger} {pool baseMint quoteMint : Pubkey}
    (h : initVaults env L pool baseMint quoteMint = .ok L') : Creates env L L' := by
  unfold initVaults at h
  obtain ⟨_, hpool, h⟩ := bind_eq_ok.mp h
  obtain ⟨L₁, h1, h⟩ := bind_eq_ok.mp h
  obtain ⟨L₂, h2, h⟩ := bind_eq_ok.mp h
  obtain ⟨L₃, h3, h⟩ := bind_eq_ok.mp h
  obtain ⟨L₄, h4, h⟩ := bind_eq_ok.mp h
  have h1' : L.initIfNeeded (env.address (.holder pool)) quoteMint
      (Vault.authority env (.holder pool)) = .ok L₁ := (Ledger.init_ok h1).2
  exact (Creates.initIfNeeded (loadKey_eq_ok.mp hpool) h1').trans ((initVault_ok h2).trans
    ((initVault_ok h3).trans ((initVault_ok h4).trans (initVault_ok h))))

/-- What registration fixes of a pool. -/
def RegisterAccounts.listing (a : RegisterAccounts) (creator : Pubkey) (feeBps : UInt16) :
    Listing where
  baseMint := a.baseMint
  quoteMint := a.quoteMint
  dbcConfig := a.dbcConfig.key
  commodity := a.commodity.key
  creator := creator
  feeBps := feeBps

/-- What an accepted registration did. -/
structure RegisterDone (env : RouterEnv) (s : RouterProgram) (a : RegisterAccounts)
    (creator : Pubkey) (feeBps : UInt16) (s' : RouterProgram) : Prop where
  dbcPool : a.dbcPool.owner = dbcProgramId
  dbcConfig : a.dbcConfig.owner = dbcProgramId
  fresh : s.pools a.dbcPool.key = none
  unpaused : s.config.paused = false
  fee_le : feeBps ≤ maxFeeBps
  state : s' = { s with pools := s'.pools, ledger := s'.ledger }
  pools : ∃ acc, s'.pools = Function.update s.pools a.dbcPool.key (some acc) ∧
    acc.listing = a.listing creator feeBps ∧
    writePoolState s.config a.baseMint a.quoteMint feeBps = .ok acc.toPoolState
  creates : Creates env s.ledger s'.ledger

variable {a : RegisterAccounts} {feeBps : UInt16} {ev : PoolRegistered}

theorem registerWith_ok {creator : ProgramResult Pubkey}
    (h : registerWith env s a feeBps creator = .ok (s', ev)) :
    ∃ key, creator = .ok key ∧ RegisterDone env s a key feeBps s' := by
  unfold registerWith at h
  obtain ⟨hpool, h⟩ := require_bind_eq_ok.mp h
  obtain ⟨hconfig, h⟩ := require_bind_eq_ok.mp h
  obtain ⟨_, hfresh, h⟩ := bind_eq_ok.mp h
  obtain ⟨L, hL, h⟩ := bind_eq_ok.mp h
  obtain ⟨key, hkey, h⟩ := bind_eq_ok.mp h
  obtain ⟨ps, hps, h⟩ := bind_eq_ok.mp h
  cases h
  rw [liftAnchor_eq_ok] at hL
  rw [liftRouter_eq_ok] at hps
  have hfresh : s.pools a.dbcPool.key = none := by
    rw [liftAnchor_eq_ok] at hfresh
    by_contra hsome
    rw [if_pos (Option.isSome_iff_ne_none.mpr hsome)] at hfresh
    cases hfresh
  have hchecks := hps
  unfold writePoolState at hchecks
  obtain ⟨hpaused, hchecks⟩ := require_bind_eq_ok.mp hchecks
  obtain ⟨hfee, hchecks⟩ := require_bind_eq_ok.mp hchecks
  have hmints : ps.baseMint = a.baseMint ∧ ps.quoteMint = a.quoteMint := by
    cases hchecks
    exact ⟨rfl, rfl⟩
  refine ⟨key, hkey, {
    dbcPool := hpool
    dbcConfig := hconfig
    fresh := hfresh
    unpaused := hpaused
    fee_le := hfee
    state := rfl
    pools := ⟨_, rfl, ?_, hps⟩
    creates := initVaults_ok hL }⟩
  simp only [PoolAccount.listing, RegisterAccounts.listing, hmints]

theorem handleRegisterPool_ok (h : handleRegisterPool env s a feeBps = .ok (s', ev)) :
    ∃ c p m, Matches env.key s.programs.pegDesk a c p m ∧
      RegisterDone env s a p.creator feeBps s' := by
  obtain ⟨key, hkey, hdone⟩ := registerWith_ok h
  obtain ⟨c, p, m, hmatches, rfl⟩ := validatePermissionless_eq_ok.mp hkey
  exact ⟨c, p, m, hmatches, hdone⟩

theorem handleRegisterPoolAdmin_ok {creator : Pubkey}
    (h : handleRegisterPoolAdmin env s a feeBps creator = .ok (s', ev)) :
    a.payer = s.config.admin ∧ RegisterDone env s a creator feeBps s' := by
  obtain ⟨key, hkey, hdone⟩ := registerWith_ok h
  obtain ⟨hadmin, hkey⟩ := require_bind_eq_ok.mp hkey
  cases hkey
  exact ⟨hadmin, hdone⟩

end Register

/-! ### The other instructions -/

section Other

/-- What an accepted `record_migration` did. -/
structure RecordDone (env : RouterEnv) (s : RouterProgram) (x : MigrationInput) (force : Bool)
    (acc : PoolAccount) (ps : PoolState) (s' : RouterProgram) : Prop where
  pool : s.pools x.dbcPool.key = some acc
  record : handleRecordMigration s.config env.key acc.toPoolState x.accounts force = .ok ps
  dammPool : x.dammPool.owner = dammV2ProgramId
  dammPosition : x.dammPosition.owner = dammV2ProgramId
  state : s' = { s with
    pools := Function.update s.pools x.dbcPool.key (some { acc with toPoolState := ps }) }

theorem recordMigration_ok {x : MigrationInput} {force : Bool} {ev : RouterMigrationRecorded}
    (h : recordMigration env s x force = .ok (s', ev)) :
    ∃ acc ps, RecordDone env s x force acc ps s' := by
  unfold recordMigration at h
  obtain ⟨acc, hacc, h⟩ := bind_eq_ok.mp h
  obtain ⟨-, h⟩ := require_bind_eq_ok.mp h
  obtain ⟨hpool, h⟩ := require_bind_eq_ok.mp h
  obtain ⟨hposition, h⟩ := require_bind_eq_ok.mp h
  obtain ⟨ps, hps, h⟩ := bind_eq_ok.mp h
  cases h
  exact ⟨acc, ps, loadPoolAccount_eq_ok.mp hacc, liftRouter_eq_ok.mp hps, hpool, hposition, rfl⟩

theorem configureWith_ok {config : RouterResult RouterConfig}
    (h : configureWith s config = .ok s') : ∃ c, config = .ok c ∧ s' = { s with config := c } := by
  unfold configureWith at h
  obtain ⟨c, hc, h⟩ := bind_eq_ok.mp h
  cases h
  exact ⟨c, liftRouter_eq_ok.mp hc, rfl⟩

theorem setPrograms_ok {admin newAdmin : Pubkey} {programs : RouterPrograms}
    (h : setPrograms s admin programs newAdmin = .ok s') :
    ∃ c, handleSetPrograms s.config admin newAdmin = .ok c ∧
      s' = { s with config := c, programs } := by
  unfold setPrograms at h
  obtain ⟨c, hc, h⟩ := bind_eq_ok.mp h
  cases h
  exact ⟨c, liftRouter_eq_ok.mp hc, rfl⟩

end Other

end IceMarkets.FeeRouter
