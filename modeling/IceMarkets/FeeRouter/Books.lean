import IceMarkets.FeeRouter.ProgramRun
import IceMarkets.Lib.Books
import Mathlib.Algebra.BigOperators.Group.Finset.Piecewise

/-!
# IceMarkets.FeeRouter.Books

Where the tokens of the program's vaults come from and go.

Each step posts to every vault what claims earned it, what transfers gave it and what
withdrawals took (`ProgramStep.posts`). Over any run a pool's vault holds what the pool's own
claims put there and what it was given, less what the distributor withdrew; the buyback vaults
and treasuries are backed by all pools of their mint together.
-/

namespace IceMarkets.FeeRouter

open Lts Books

section Steps

variable {env : RouterEnv} {s s' : RouterProgram} {act : ProgramAct}

/-! ### What a step posts -/

namespace ProgramAct

/-- Put into a vault by a claim. -/
def earned (v : Vault) : ProgramAct → Nat
  | claimed x baseMint quoteMint evs => evs.credit x.pool baseMint quoteMint v
  | _ => 0

/-- Sent to a vault, by a withdrawal from another or from outside. -/
def given (env : RouterEnv) (v : Vault) : ProgramAct → Nat
  | withdrawn _ _ _ destination amount => if env.address v = destination then amount.toNat else 0
  | external gift => gift v
  | _ => 0

/-- Withdrawn from a vault. -/
def taken (v : Vault) : ProgramAct → Nat
  | withdrawn _ _ w _ amount => if v = w then amount.toNat else 0
  | _ => 0

end ProgramAct

/-- A vault's balance changes by what was earned, given and taken. -/
theorem ProgramStep.posts {v : Vault} (hv : v.Known env) :
    Posts (ProgramStep env) (·.config.Splits) (·.ledger.amount (env.address v))
      (fun act => act.earned v + act.given env v) (·.taken v) := by
  intro s act s' hc hstep
  cases hstep.done hc with
  | claimed h => exact h.amount v hv
  | @withdrawn _ _ w _ _ _ _ h =>
      have hamount := h.amount (env.address v)
      have haddress : env.address v = env.address w ↔ v = w :=
        ⟨env.address_injective v w hv h.known, fun hvw => by rw [hvw]⟩
      simp only [haddress] at hamount
      simpa [ProgramAct.earned, ProgramAct.given, ProgramAct.taken] using hamount
  | registered _ _ h => exact h.creates.amount (env.address v)
  | migrated h => rw [h.state]; rfl
  | configured _ => rfl
  | external h =>
      have hamount := h.amount v hv
      simpa [ProgramAct.earned, ProgramAct.given, ProgramAct.taken] using hamount

/-- A vault that nothing is taken from keeps what it has. -/
theorem ProgramStep.amount_le (hstep : ProgramStep env s act s') (hc : s.config.Splits)
    {v : Vault} (hv : v.Known env) (htaken : act.taken v = 0) :
    s.ledger.amount (env.address v) ≤ s'.ledger.amount (env.address v) := by
  have hposts : s'.ledger.amount (env.address v) + act.taken v =
      s.ledger.amount (env.address v) + (act.earned v + act.given env v) :=
    ProgramStep.posts hv s act s' hc hstep
  omega

end Steps

/-! ### What a pool's account keeps -/

section Pools

variable {env : RouterEnv} {s s' : RouterProgram} {act : ProgramAct}

/-- The parties of a split. -/
inductive Party
  | holders
  | buyback
  | protocol
  deriving DecidableEq, Repr

def PoolState.paid (ps : PoolState) : Party → Nat
  | .holders => ps.totalToHolders.toNat
  | .buyback => ps.totalToBuyback.toNat
  | .protocol => ps.totalToProtocol.toNat

def ClaimEvents.paid (evs : ClaimEvents) : Party → Nat
  | .holders => evs.holders
  | .buyback => evs.buyback
  | .protocol => evs.protocol

/-- What a pool's account says a party was paid. -/
def RouterProgram.paid (s : RouterProgram) (pool : Pubkey) (party : Party) : Nat :=
  match s.pools pool with
  | some acc => acc.toPoolState.paid party
  | none => 0

/-- What a step pays a party for a pool. -/
def ProgramAct.pays (pool : Pubkey) (party : Party) : ProgramAct → Nat
  | claimed x _ _ evs => if x.pool = pool then evs.paid party else 0
  | _ => 0

theorem paid_of_some {pool : Pubkey} {party : Party} {acc : PoolAccount}
    (h : s.pools pool = some acc) : s.paid pool party = acc.toPoolState.paid party := by
  unfold RouterProgram.paid
  rw [h]

theorem paid_of_none {pool : Pubkey} {party : Party} (h : s.pools pool = none) :
    s.paid pool party = 0 := by
  unfold RouterProgram.paid
  rw [h]

theorem paid_update (pool key : Pubkey) (party : Party) {acc : PoolAccount} {n : Nat}
    (hpools : s'.pools = Function.update s.pools pool (some acc))
    (hn : acc.toPoolState.paid party = s.paid pool party + n) :
    s'.paid key party = s.paid key party + if pool = key then n else 0 := by
  by_cases hkey : pool = key
  · subst hkey
    rw [if_pos rfl, paid_of_some (s := s') (by rw [hpools, Function.update_self]), hn]
  · rw [if_neg hkey, Nat.add_zero]
    unfold RouterProgram.paid
    rw [hpools, Function.update_of_ne (Ne.symm hkey)]

theorem PoolState.Counts.paid {ps ps' : PoolState} {amount : Nat} {evs : ClaimEvents}
    (h : ps.Counts ps' amount evs.holders evs.buyback evs.protocol) (party : Party) :
    ps'.paid party = ps.paid party + evs.paid party := by
  cases party with
  | holders => exact h.holders
  | buyback => exact h.buyback
  | protocol => exact h.protocol

theorem PoolState.Counts.paid_eq {ps ps' : PoolState} (h : ps.Counts ps' 0 0 0 0)
    (party : Party) : ps'.paid party = ps.paid party := by
  cases party with
  | holders => exact h.holders
  | buyback => exact h.buyback
  | protocol => exact h.protocol

/-- A pool's account counts what its claims paid. -/
theorem ProgramStep.posts_paid (env : RouterEnv) (pool : Pubkey) (party : Party) :
    Posts (ProgramStep env) (·.config.Splits) (·.paid pool party) (·.pays pool party)
      fun _ => 0 := by
  intro s act s' hc hstep
  cases hstep.done hc with
  | claimed h =>
      obtain ⟨acc', hpools, -, hcounts⟩ := h.pools
      exact paid_update _ _ _ hpools (by rw [paid_of_some h.pool, hcounts.paid])
  | withdrawn _ h => rw [h.state]; rfl
  | registered _ _ h =>
      obtain ⟨acc, hpools, -, hwrite⟩ := h.pools
      have hzero : acc.toPoolState.paid party = 0 := by
        unfold writePoolState at hwrite
        obtain ⟨-, hwrite⟩ := require_bind_eq_ok.mp hwrite
        obtain ⟨-, hwrite⟩ := require_bind_eq_ok.mp hwrite
        rw [← Except.ok.inj hwrite]
        cases party <;> rfl
      have hpaid := paid_update _ pool party (n := 0) hpools (by
        rw [hzero, paid_of_none h.fresh])
      simpa [ProgramAct.pays] using hpaid
  | migrated h =>
      have hcounts := handleRecordMigration_counts h.record
      have hpaid := paid_update _ pool party (n := 0) (congrArg RouterProgram.pools h.state) (by
        rw [paid_of_some h.pool]
        exact hcounts.paid_eq party)
      simpa [ProgramAct.pays] using hpaid
  | configured _ => rfl
  | external _ => rfl

end Pools

/-! ### From the start -/

/-- The program after `initialize_router`. Its PDAs do not exist yet; a receiving account is an
associated account, which anybody may have created for the router. -/
structure RouterProgram.Fresh (env : RouterEnv) (s : RouterProgram) : Prop where
  config : ∃ program programData payer args,
    initializeRouter env program programData payer args s.programs = .ok (s.config, s.programs)
  pools : ∀ pool, s.pools pool = none
  vaults : ∀ v, v.Known env → (∀ mint, v ≠ .recv mint) → s.ledger (env.address v) = none
  recv : ∀ v, v.Known env → s.ledger.OwnedBy (env.address v) (v.authority env)

section Fresh

variable {env : RouterEnv} {s₀ s : RouterProgram} {tr : List ProgramAct}

theorem RouterProgram.Fresh.splits (h : s.Fresh env) : s.config.Splits := by
  obtain ⟨program, programData, payer, args, hinit⟩ := h.config
  unfold initializeRouter at hinit
  obtain ⟨-, hinit⟩ := require_bind_eq_ok.mp hinit
  obtain ⟨⟨⟩, -, hinit⟩ := bind_eq_ok.mp hinit
  obtain ⟨config, hconfig, hinit⟩ := bind_eq_ok.mp hinit
  rw [liftRouter_eq_ok] at hconfig
  obtain ⟨-, hconfig⟩ := require_bind_eq_ok.mp hconfig
  obtain ⟨hsum, hconfig⟩ := require_bind_eq_ok.mp hconfig
  have heq := Except.ok.inj hinit
  rw [Prod.mk.injEq] at heq
  rw [← heq.1, ← Except.ok.inj hconfig]
  exact hsum

theorem RouterProgram.Fresh.amount_eq_zero (h : s.Fresh env) {v : Vault} (hv : v.Known env)
    (hne : ∀ mint, v ≠ .recv mint) : s.ledger.amount (env.address v) = 0 := by
  unfold Ledger.amount
  rw [h.vaults v hv hne]

theorem ProgramRun.posts (h : ProgramRun env s₀ tr s) (hc : s₀.config.Splits) {v : Vault}
    (hv : v.Known env) :
    s.ledger.amount (env.address v) + total (·.taken v) tr =
      s₀.ledger.amount (env.address v) + (total (·.earned v) tr + total (·.given env v) tr) := by
  have hbooks := (ProgramStep.posts hv).run (fun _ _ _ hstep hc => hstep.splits hc) h hc
  rwa [total_add] at hbooks

theorem ProgramRun.paid (h : ProgramRun env s₀ tr s) (hfresh : s₀.Fresh env) (pool : Pubkey)
    (party : Party) : s.paid pool party = total (·.pays pool party) tr := by
  have hbooks := (ProgramStep.posts_paid env pool party).run
    (fun _ _ _ hstep hc => hstep.splits hc) h hfresh.splits
  rw [total_eq_zero (f := fun _ => 0) fun _ _ => rfl, paid_of_none (hfresh.pools pool)] at hbooks
  omega

/-- The pools of a mint. -/
def Quotes (s : RouterProgram) (mint pool : Pubkey) : Prop :=
  ∃ acc, s.pools pool = some acc ∧ acc.quoteMint = mint

/-- A run lists finitely many pools. -/
theorem ProgramRun.exists_pools (h : ProgramRun env s₀ tr s) (hfresh : s₀.Fresh env)
    (mint : Pubkey) : ∃ S : Finset Pubkey, ∀ pool, pool ∈ S ↔ Quotes s mint pool := by
  let keys := tr.filterMap fun act => match act with
    | .registered a _ _ => some a.dbcPool.key
    | _ => none
  refine ⟨keys.toFinset.filter fun pool => ((s.pools pool).any (·.quoteMint = mint)), ?_⟩
  intro pool
  rw [Finset.mem_filter, List.mem_toFinset]
  have hquotes : ((s.pools pool).any (·.quoteMint = mint) = true) ↔ Quotes s mint pool := by
    unfold Quotes
    cases s.pools pool <;> simp
  rw [hquotes]
  refine and_iff_right_of_imp ?_
  intro hx
  obtain ⟨acc, hacc, -⟩ := hx
  rcases h.listed hfresh.splits hacc with ⟨acc₀, hacc₀, -⟩ | ⟨a, pegDesk, hmem, hkey, -⟩
  · rw [hfresh.pools pool] at hacc₀
    cases hacc₀
  · exact List.mem_filterMap.mpr ⟨_, hmem, congrArg some hkey⟩

/-- What the claims of a mint's pools paid a party. -/
theorem ProgramRun.paid_of_mint (h : ProgramRun env s₀ tr s) (hfresh : s₀.Fresh env)
    (party : Party) {mint : Pubkey} {S : Finset Pubkey}
    (hS : ∀ pool, pool ∈ S ↔ Quotes s mint pool) :
    total (fun act => match act with
      | .claimed _ _ quoteMint evs => if mint = quoteMint then evs.paid party else 0
      | _ => 0) tr = ∑ pool ∈ S, s.paid pool party := by
  simp only [h.paid hfresh, ← total_sum]
  refine total_congr fun act hact => ?_
  cases act with
  | claimed x baseMint quoteMint evs =>
      obtain ⟨acc, hacc, -, hquote⟩ := h.claimed_listed hfresh.splits hact
      have hmem : x.pool ∈ S ↔ mint = quoteMint := by
        rw [hS, ← hquote]
        constructor
        · intro hx
          obtain ⟨acc', hacc', hmint⟩ := hx
          cases hacc.symm.trans hacc'
          exact hmint.symm
        · exact fun hmint => ⟨acc, hacc, hmint.symm⟩
      simp only [ProgramAct.pays, Finset.sum_ite_eq, hmem]
  | withdrawn _ _ _ _ _ => simp [ProgramAct.pays]
  | registered _ _ _ => simp [ProgramAct.pays]
  | migrated _ => simp [ProgramAct.pays]
  | configured _ => simp [ProgramAct.pays]
  | external _ => simp [ProgramAct.pays]

/-- The base fees of a claim, for the treasury of their mint. -/
def ProgramAct.baseFee (mint : Pubkey) : ProgramAct → Nat
  | claimed _ baseMint _ evs => if mint = baseMint then evs.claimed.baseAmount.toNat else 0
  | _ => 0

/-- Where the tokens of the vaults are from, after a run from `s₀`. -/
structure Backed (env : RouterEnv) (s₀ : RouterProgram) (tr : List ProgramAct) (s : RouterProgram) :
    Prop where
  /-- A pool's vault holds its holders' shares and what it was given, less the withdrawals. -/
  holder : ∀ pool, env.isAccount pool = true →
    s.ledger.amount (env.address (.holder pool)) + total (·.taken (.holder pool)) tr =
      s.paid pool .holders + total (·.given env (.holder pool)) tr
  buyback : ∀ mint, env.isAccount mint = true →
    ∃ S : Finset Pubkey, (∀ pool, pool ∈ S ↔ Quotes s mint pool) ∧
      s.ledger.amount (env.address (.buyback mint)) + total (·.taken (.buyback mint)) tr =
        ∑ pool ∈ S, s.paid pool .buyback + total (·.given env (.buyback mint)) tr
  treasury : ∀ mint, env.isAccount mint = true →
    ∃ S : Finset Pubkey, (∀ pool, pool ∈ S ↔ Quotes s mint pool) ∧
      s.ledger.amount (env.address (.treasury mint)) + total (·.taken (.treasury mint)) tr =
        ∑ pool ∈ S, s.paid pool .protocol + total (·.baseFee mint) tr +
          total (·.given env (.treasury mint)) tr
  /-- The claims leave nothing behind in a receiving account, and nobody withdraws from it. -/
  recv : ∀ mint, env.isAccount mint = true → s.ledger.amount (env.address (.recv mint)) =
    s₀.ledger.amount (env.address (.recv mint)) + total (·.given env (.recv mint)) tr

theorem ProgramRun.taken_recv (h : ProgramRun env s₀ tr s) (hc : s₀.config.Splits)
    (mint : Pubkey) : ∀ act ∈ tr, act.taken (.recv mint) = 0 := by
  induction h with
  | nil s => exact nofun
  | cons head _ ih =>
      intro act hact
      rcases List.mem_cons.mp hact with rfl | hact
      · cases head.done hc with
        | @withdrawn kind _ v _ _ _ hsign _ =>
            have hne : Vault.recv mint ≠ v := by
              intro hx
              subst hx
              cases kind <;> exact hsign
            exact if_neg hne
        | claimed _ | registered _ _ _ | migrated _ | configured _ | external _ => rfl
      · exact ih (head.splits hc) act hact

/-- After any run of the program, with any signers, arguments and transfers from outside, every
vault is backed. -/
theorem vaults_backed (hfresh : s₀.Fresh env) (h : ProgramRun env s₀ tr s) :
    Backed env s₀ tr s := by
  constructor
  · intro pool hknown
    have hbooks := h.posts hfresh.splits (v := .holder pool) hknown
    rw [hfresh.amount_eq_zero (v := .holder pool) hknown (by simp)] at hbooks
    have hpaid := h.paid hfresh pool .holders
    have hearned : total (·.earned (.holder pool)) tr = total (·.pays pool .holders) tr := by
      refine total_congr fun act _ => ?_
      cases act with
      | claimed x baseMint quoteMint evs =>
          simp only [ProgramAct.earned, ClaimEvents.credit, ProgramAct.pays, ClaimEvents.paid,
            eq_comm]
      | withdrawn _ _ _ _ _ | registered _ _ _ | migrated _ | configured _ | external _ => rfl
    omega
  · intro mint hknown
    obtain ⟨S, hS⟩ := h.exists_pools hfresh mint
    refine ⟨S, hS, ?_⟩
    have hbooks := h.posts hfresh.splits (v := .buyback mint) hknown
    rw [hfresh.amount_eq_zero (v := .buyback mint) hknown (by simp)] at hbooks
    have hpaid := h.paid_of_mint hfresh .buyback hS
    have hearned : total (·.earned (.buyback mint)) tr = ∑ pool ∈ S, s.paid pool .buyback := by
      rw [← hpaid]
      refine total_congr fun act _ => ?_
      cases act <;> rfl
    omega
  · intro mint hknown
    obtain ⟨S, hS⟩ := h.exists_pools hfresh mint
    refine ⟨S, hS, ?_⟩
    have hbooks := h.posts hfresh.splits (v := .treasury mint) hknown
    rw [hfresh.amount_eq_zero (v := .treasury mint) hknown (by simp)] at hbooks
    have hpaid := h.paid_of_mint hfresh .protocol hS
    have hearned : total (·.earned (.treasury mint)) tr =
        total (·.baseFee mint) tr + ∑ pool ∈ S, s.paid pool .protocol := by
      rw [← hpaid, ← total_add]
      refine total_congr fun act _ => ?_
      cases act <;> rfl
    omega
  · intro mint hknown
    have hbooks := h.posts hfresh.splits (v := .recv mint) hknown
    rw [total_eq_zero (h.taken_recv hfresh.splits mint)] at hbooks
    have hearned : total (·.earned (.recv mint)) tr = 0 := by
      refine total_eq_zero fun act _ => ?_
      cases act <;> rfl
    omega

end Fresh

/-! ### A sample run -/

namespace ProgramSample

/-- A key that starts with `tag`, and repeats `b`. -/
def sampleKey (tag b : UInt8) : Pubkey := ⟨tag :: List.replicate 31 b, by simp⟩

/-- The address derived with seed `tag` from a key: its first byte is replaced. -/
def derived (tag : UInt8) (key : Pubkey) : Pubkey :=
  ⟨tag :: key.bytes.tail, by simp [key.length_eq]⟩

theorem derived_injective {tag tag' : UInt8} {k k' : Pubkey} (hk : k.bytes.head? = some 0)
    (hk' : k'.bytes.head? = some 0) (h : derived tag k = derived tag' k') :
    tag = tag' ∧ k = k' := by
  have hbytes := congrArg Bytes32.bytes h
  simp only [derived, List.cons.injEq] at hbytes
  refine ⟨hbytes.1, Bytes32.ext_bytes ?_⟩
  rw [List.head?_eq_some_iff] at hk hk'
  obtain ⟨t, ht⟩ := hk
  obtain ⟨t', ht'⟩ := hk'
  rw [ht, ht'] at hbytes ⊢
  simpa using hbytes.2

def address : Vault → Pubkey
  | .recv mint => derived 1 mint
  | .holder pool => derived 2 pool
  | .buyback mint => derived 3 mint
  | .treasury mint => derived 4 mint

/-- The accounts are the keys that start with a zero. -/
def env : RouterEnv where
  id := sampleKey 9 1
  loader := { id := sampleKey 9 2, programData := derived 10 }
  isAccount := fun key => key.bytes.head? = some 0
  key := sampleKey 9 3
  poolKey := derived 5
  address := address
  distAuth := derived 6
  bbAuth := derived 7
  address_injective := by
    intro v w hv hw h
    cases v <;> cases w <;> obtain ⟨htag, hkey⟩ := derived_injective
      (of_decide_eq_true hv) (of_decide_eq_true hw) h <;>
      first
        | cases hkey; rfl
        | cases htag

def admin : Pubkey := sampleKey 8 1

def coin : Pubkey := sampleKey 0 1

def base : Pubkey := sampleKey 0 2

def pool : Pubkey := sampleKey 0 3

def creator : Pubkey := sampleKey 8 2

def programs : RouterPrograms where
  distributor := sampleKey 9 4
  buyback := sampleKey 9 5
  pegDesk := sampleKey 9 6

/-- The program's account and its data, which names the admin. -/
def program : RawAccount := { key := env.id, owner := env.loader.id, data := [] }

def programData : RawAccount where
  key := env.loader.programData env.id
  owner := env.loader.id
  data := programDataBytes (List.replicate 8 0) (some admin) []

def fresh : RouterProgram where
  config := (acceptedValue (initializeRouter env program programData admin
    { holdersBps := 5000, buybackBps := 2500, protocolBps := 2500 } programs)
      (by decide +kernel)).1
  programs := programs
  pools := fun _ => none
  ledger := fun _ => none

theorem fresh_fresh : fresh.Fresh env where
  config := ⟨program, programData, admin,
    { holdersBps := 5000, buybackBps := 2500, protocolBps := 2500 }, by decide +kernel⟩
  pools := fun _ => rfl
  vaults := fun _ _ _ => rfl
  recv := fun _ _ => nofun

def dbcConfig : PoolConfig := { quoteMint := coin, feeClaimer := env.key, rest := [] }

def virtualPool : VirtualPool where
  volatilityTracker := List.replicate 64 0
  config := sampleKey 9 7
  creator := creator
  baseMint := base
  trading := List.replicate 137 0
  isMigrated := 0
  rest := []
  volatilityTracker_length := by simp
  trading_length := by simp

def commodity : CommodityAccount where
  head := List.replicate commodityCoinMintOffset 0
  coinMint := coin
  rest := []
  head_length := by simp

def accounts : RegisterAccounts where
  payer := creator
  dbcPool := { key := pool, owner := dbcProgramId, data := virtualPool.bytes }
  dbcConfig := { key := sampleKey 9 7, owner := dbcProgramId, data := dbcConfig.bytes }
  commodity := { key := sampleKey 8 3, owner := programs.pegDesk, data := commodity.bytes }
  baseMint := base
  quoteMint := coin

/-- The creator registers the pool. -/
def registered : RouterProgram × PoolRegistered :=
  acceptedValue (handleRegisterPool env fresh accounts 100) (by decide +kernel)

/-- A claim of 1003 units by somebody. -/
def claimInput : ClaimInput where
  now := 1000
  caller := sampleKey 8 9
  pool := pool
  credit := { quote := 1003, base := 0 }

def claimed : RouterProgram × ClaimEvents :=
  acceptedValue (handleClaim env registered.1 .dbc claimInput) (by decide +kernel)

def trace : List ProgramAct :=
  [.registered accounts (accounts.listing creator 100) (some programs.pegDesk),
    .claimed claimInput base coin claimed.2]

theorem registered_eq :
    handleRegisterPool env fresh accounts 100 = .ok (registered.1, registered.2) := by
  rw [Prod.mk.eta]
  exact eq_ok_acceptedValue _

theorem claimed_eq :
    handleClaim env registered.1 .dbc claimInput = .ok (claimed.1, claimed.2) := by
  rw [Prod.mk.eta]
  exact eq_ok_acceptedValue _

theorem step_registered : ProgramStep env fresh (.registered accounts
    (accounts.listing creator 100) (some programs.pegDesk)) registered.1 :=
  .registerPool (by decide +kernel) registered_eq

theorem step_claimed :
    ProgramStep env registered.1 (.claimed claimInput base coin claimed.2) claimed.1 := by
  obtain ⟨acc, hacc, hmints⟩ : ∃ acc, registered.1.pools claimInput.pool = some acc ∧
      (acc.baseMint, acc.quoteMint) = (base, coin) := by
    have h : (registered.1.pools claimInput.pool).map
        (fun acc => (acc.baseMint, acc.quoteMint)) = some (base, coin) := by decide +kernel
    exact Option.map_eq_some_iff.mp h
  rw [Prod.mk.injEq] at hmints
  have hclaim : ProgramStep env registered.1 (.claimed claimInput acc.baseMint acc.quoteMint
      claimed.2) claimed.1 :=
    .claim hacc claimed_eq
  rwa [hmints.1, hmints.2] at hclaim

theorem run_trace : ProgramRun env fresh trace claimed.1 :=
  .cons step_registered (.single step_claimed)

end ProgramSample

open ProgramSample in
/-- A pool's first claim. -/
theorem vaults_backed_sample : Backed env fresh trace claimed.1 :=
  vaults_backed fresh_fresh run_trace

end IceMarkets.FeeRouter
