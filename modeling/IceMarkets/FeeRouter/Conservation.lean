import IceMarkets.FeeRouter.ClaimEffect
import IceMarkets.Lib.Run

/-!
# IceMarkets.FeeRouter.Conservation

What a claim receives is what it hands out: over any run, each claim's three shares sum to
the quote it received and the receiving account keeps what already lay in it, so a pool's
totals count its own claims and nothing else.
-/

namespace IceMarkets.FeeRouter

open Lts

/-! ### Runs -/

/-- An accepted change of the config. -/
inductive Configures (c : RouterConfig) (admin : Pubkey) (c' : RouterConfig) : Prop
  | setSplit {h b p : UInt16} (hset : handleSetSplit c admin h b p = .ok c')
  | setKeepers {keepers : List Pubkey} (hset : handleSetKeepers c admin keepers = .ok c')
  | pause {paused : Bool} (hset : handlePause c admin paused = .ok c')
  | setPrograms {newAdmin : Pubkey} (hset : handleSetPrograms c admin newAdmin = .ok c')

inductive RouterAct
  | claimed (x : ClaimInput) (evs : ClaimEvents)
  | configured
  | registered (pool : Pubkey)
  | migrated (pool : Pubkey)
  | moved

/-- An accepted instruction, or a movement of tokens beside the claims. -/
inductive RouterStep (s : Router) : RouterAct → Router → Prop
  | claim {x : ClaimInput} {evs : ClaimEvents} {s' : Router} (h : Claims s x (.ok (s', evs))) :
      RouterStep s (.claimed x evs) s'
  | configure {admin : Pubkey} {c' : RouterConfig} (h : Configures s.config admin c') :
      RouterStep s .configured { s with config := c' }
  | register {pool baseMint quoteMint : Pubkey} {feeBps : UInt16} {ps : PoolState}
      (hnew : s.pools pool = none)
      (h : writePoolState s.config baseMint quoteMint feeBps = .ok ps) :
      RouterStep s (.registered pool) { s with pools := Function.update s.pools pool (some ps) }
  | recordMigration {pool : Pubkey} {ps ps' : PoolState} {a : MigrationAccounts} {force : Bool}
      (hps : s.pools pool = some ps)
      (h : handleRecordMigration s.config s.key ps a force = .ok ps') :
      RouterStep s (.migrated pool) { s with pools := Function.update s.pools pool (some ps') }
  /-- Anyone may send to the router's accounts, and the `withdraw_*` instructions take from the
  vaults; nothing but a split takes from a receiving account. -/
  | move {quoteRecv holderVault buybackVault treasury : Pubkey → TokenAccount}
      (hrecv : ∀ mint, (s.quoteRecv mint).amount ≤ (quoteRecv mint).amount) :
      RouterStep s .moved { s with quoteRecv, holderVault, buybackVault, treasury }

/-- A run of the program. -/
abbrev RouterRun : Router → List RouterAct → Router → Prop := Run RouterStep

/-- The router after `initialize_router`, before its first pool. -/
structure Router.Fresh (s : Router) : Prop where
  config : ∃ upgradeAuthority payer args,
    handleInitializeRouter upgradeAuthority payer args = .ok s.config
  pools : ∀ key, s.pools key = none

/-- The split adds up and so do the pools' totals. -/
structure Router.Valid (s : Router) : Prop where
  splits : s.config.Splits
  balanced : ∀ key ps, s.pools key = some ps → ps.Balanced

/-- What a pool has claimed so far. -/
def Router.claimed (s : Router) (key : Pubkey) : Nat :=
  match s.pools key with
  | some ps => ps.totalClaimed.toNat
  | none => 0

/-- The quote a step's claim received for a pool. -/
def RouterAct.received (key : Pubkey) : RouterAct → Nat
  | .claimed x _ => if x.pool = key then x.credit.quote.toNat else 0
  | _ => 0

section Steps

variable {s s' : Router} {act : RouterAct}

theorem Configures.splits {admin : Pubkey} {c c' : RouterConfig} (h : Configures c admin c')
    (hc : c.Splits) : c'.Splits := by
  cases h with
  | setSplit hset =>
      obtain ⟨-, hset⟩ := require_bind_eq_ok.mp hset
      obtain ⟨hsum, hset⟩ := require_bind_eq_ok.mp hset
      cases hset
      exact hsum
  | setKeepers hset =>
      obtain ⟨-, hset⟩ := require_bind_eq_ok.mp hset
      obtain ⟨-, hset⟩ := require_bind_eq_ok.mp hset
      cases hset
      exact hc
  | pause hset =>
      obtain ⟨-, hset⟩ := require_bind_eq_ok.mp hset
      cases hset
      exact hc
  | setPrograms hset =>
      obtain ⟨-, hset⟩ := require_bind_eq_ok.mp hset
      cases hset
      exact hc

theorem Router.Fresh.valid (h : s.Fresh) : s.Valid := by
  obtain ⟨upgradeAuthority, payer, args, hinit⟩ := h.config
  obtain ⟨-, hinit⟩ := require_bind_eq_ok.mp hinit
  obtain ⟨hsum, hinit⟩ := require_bind_eq_ok.mp hinit
  constructor
  · rw [← Except.ok.inj hinit]
    exact hsum
  · intro key ps hps
    rw [h.pools key] at hps
    cases hps

/-- Writing one pool keeps the totals in balance. -/
theorem Router.Valid.update (h : s.Valid) {pools : Pubkey → Option PoolState} {key : Pubkey}
    {ps : PoolState} (hpools : pools = Function.update s.pools key (some ps)) (hps : ps.Balanced) :
    ∀ key' ps', pools key' = some ps' → ps'.Balanced := by
  intro key' ps' hps'
  rw [hpools] at hps'
  by_cases hkey : key' = key
  · subst hkey
    rw [Function.update_self] at hps'
    cases hps'
    exact hps
  · rw [Function.update_of_ne hkey] at hps'
    exact h.balanced key' ps' hps'

/-- What `record_migration` checks, and what it writes of the pool. -/
theorem handleRecordMigration_eq_ok {router : Pubkey} {c : RouterConfig} {ps ps' : PoolState}
    {a : MigrationAccounts} {force : Bool} :
    handleRecordMigration c router ps a force = .ok ps' ↔
      a.positionNft.owner = router ∧ a.positionNft.amount = 1 ∧
        c.isAdminOrKeeper a.authority = true ∧ checkMigrated c a force = .ok () ∧
        a.dammPoolValid = true ∧
        ∃ position, a.position = some position ∧ position.pool = a.dammPool ∧
          a.positionNft.mint = position.nftMint ∧
          ps' = { ps with
            migrated := true, dammPool := a.dammPool, dammPosition := a.dammPosition
            positionNftMint := position.nftMint } := by
  unfold handleRecordMigration
  simp only [bind_eq_ok, require_eq_ok, okOr_eq_ok]
  constructor
  · intro hx
    obtain ⟨_, howner, _, hamount, _, hauthority, _, hmigrated, _, hvalid, position, hposition, _,
      hpool, _, hmint, h⟩ := hx
    cases h
    exact ⟨howner, hamount, hauthority, hmigrated, hvalid, position, hposition, hpool, hmint, rfl⟩
  · intro hx
    obtain ⟨howner, hamount, hauthority, hmigrated, hvalid, position, hposition, hpool, hmint,
      rfl⟩ := hx
    exact ⟨(), howner, (), hamount, (), hauthority, (), hmigrated, (), hvalid, position, hposition,
      (), hpool, (), hmint, rfl⟩

/-- No step touches a pool's totals but its claims. -/
theorem handleRecordMigration_counts {router : Pubkey} {c : RouterConfig} {ps ps' : PoolState}
    {a : MigrationAccounts} {force : Bool}
    (h : handleRecordMigration c router ps a force = .ok ps') : ps.Counts ps' 0 0 0 0 := by
  obtain ⟨-, -, -, -, -, position, -, -, -, rfl⟩ := handleRecordMigration_eq_ok.mp h
  exact ⟨rfl, rfl, rfl, rfl⟩

theorem writePoolState_ok {c : RouterConfig} {baseMint quoteMint : Pubkey} {feeBps : UInt16}
    {ps : PoolState} (h : writePoolState c baseMint quoteMint feeBps = .ok ps) :
    ps.Balanced ∧ ps.totalClaimed.toNat = 0 := by
  unfold writePoolState at h
  obtain ⟨-, h⟩ := require_bind_eq_ok.mp h
  obtain ⟨-, h⟩ := require_bind_eq_ok.mp h
  cases h
  exact ⟨rfl, rfl⟩

theorem RouterStep.valid (h : RouterStep s act s') (hs : s.Valid) : s'.Valid := by
  cases h with
  | claim h =>
      obtain ⟨ps, base, hh, b, p, heff⟩ := h.effect hs.splits
      obtain ⟨ps', hpools, hcounts⟩ := heff.pools
      constructor
      · rw [heff.config]
        exact hs.splits
      · exact hs.update hpools
          (hcounts.balanced (hs.balanced _ _ heff.pool) heff.shares.sum)
  | configure h => exact ⟨h.splits hs.splits, hs.balanced⟩
  | register _ h => exact ⟨hs.splits, hs.update rfl (writePoolState_ok h).1⟩
  | recordMigration hps h =>
      exact ⟨hs.splits, hs.update rfl
        ((handleRecordMigration_counts h).balanced (hs.balanced _ _ hps) rfl)⟩
  | move _ => exact ⟨hs.splits, hs.balanced⟩

/-- A written pool counts what was added to it, and the others what they did. -/
theorem Router.claimed_update {pools : Pubkey → Option PoolState} {pool : Pubkey} {ps : PoolState}
    {n : Nat} (hpools : pools = Function.update s.pools pool (some ps))
    (hn : ps.totalClaimed.toNat = s.claimed pool + n) (key : Pubkey) :
    Router.claimed { s with pools } key = s.claimed key + if pool = key then n else 0 := by
  unfold Router.claimed
  rw [hpools]
  by_cases hkey : pool = key
  · subst hkey
    simpa [Router.claimed] using hn
  · simp [hkey, Function.update_of_ne (Ne.symm hkey)]

/-- A step adds what its claim received, to its own pool. -/
theorem RouterStep.claimed (h : RouterStep s act s') (hs : s.Valid) (key : Pubkey) :
    s'.claimed key = s.claimed key + act.received key := by
  cases h with
  | claim h =>
      obtain ⟨ps, base, hh, b, p, heff⟩ := h.effect hs.splits
      obtain ⟨ps', hpools, hcounts⟩ := heff.pools
      refine Router.claimed_update hpools ?_ key
      rw [hcounts.claimed, Router.claimed, heff.pool]
  | configure _ => rfl
  | register hnew h =>
      have hn := (writePoolState_ok h).2
      have hcount := Router.claimed_update (s := s) (n := 0) rfl (by
        rw [hn, Router.claimed, hnew]) key
      simpa [RouterAct.received] using hcount
  | recordMigration hps h =>
      have hn := (handleRecordMigration_counts h).claimed
      have hcount := Router.claimed_update (s := s) (n := 0) rfl (by
        rw [hn, Router.claimed, hps]) key
      simpa [RouterAct.received] using hcount
  | move _ => rfl

theorem RouterRun.claimed {tr : List RouterAct} (h : RouterRun s tr s') (hs : s.Valid)
    (key : Pubkey) : s'.claimed key = s.claimed key + (tr.map (·.received key)).sum := by
  induction h with
  | nil s => simp
  | cons head _ ih =>
      rw [ih (head.valid hs), head.claimed hs key]
      simp [Nat.add_assoc]

end Steps

/-- In every reachable state: an accepted claim hands out the quote it received, in shares of
the configured split, and leaves the receiving account as it was; a pool's totals count the
quote of its own claims; and the arithmetic fails only when a pool's total leaves `u64`. -/
theorem fees_conserved {s₀ s : Router} {tr : List RouterAct} (hfresh : s₀.Fresh)
    (hrun : RouterRun s₀ tr s) :
    (∀ (x : ClaimInput) (evs : ClaimEvents) (s' : Router), Claims s x (.ok (s', evs)) →
      ∃ ps base h b p, ClaimEffect s x ps s' evs base h b p) ∧
    (∀ (pool : Pubkey) (ps : PoolState), s.pools pool = some ps →
      ps.Balanced ∧ ps.totalClaimed.toNat = (tr.map (·.received pool)).sum) ∧
    ∀ x : ClaimInput, Claims s x (.error (.custom .mathOverflow)) →
      ∃ ps, s.pools x.pool = some ps ∧ 2 ^ 64 ≤ ps.totalClaimed.toNat + x.credit.quote.toNat := by
  have hvalid : s.Valid :=
    hrun.invariant (fun _ _ _ hstep hs => hstep.valid hs) hfresh.valid
  refine ⟨?_, ?_, ?_⟩
  · intro x evs s' h
    exact h.effect hvalid.splits
  · intro pool ps hps
    refine ⟨hvalid.balanced pool ps hps, ?_⟩
    have h := hrun.claimed hfresh.valid pool
    have h₀ : s₀.claimed pool = 0 := by simp [Router.claimed, hfresh.pools pool]
    rw [h₀, Nat.zero_add] at h
    rw [← h, Router.claimed, hps]
  · intro x h
    exact h.mathOverflow hvalid.splits hvalid.balanced

/-! ### A sample run -/

namespace Sample

def config : RouterConfig where
  admin := Bytes32.fill 3
  keepers := Vector.replicate maxKeepers Pubkey.default
  keeperCount := 0
  holdersBps := 5000
  buybackBps := 2500
  protocolBps := 2500
  paused := false

/-- An empty token account of the router. -/
def account (mint owner : Pubkey) : TokenAccount := { mint, owner, amount := 0 }

def fresh : Router where
  key := Bytes32.fill 1
  config := config
  pools := fun _ => none
  quoteRecv := fun mint => account mint (Bytes32.fill 1)
  holderVault := fun pool => account (Bytes32.fill 7) pool
  buybackVault := fun mint => account mint (Bytes32.fill 1)
  treasury := fun mint => account mint (Bytes32.fill 1)

def pool : PoolState where
  baseMint := Bytes32.fill 8
  quoteMint := Bytes32.fill 7
  migrated := false
  dammPool := Pubkey.default
  dammPosition := Pubkey.default
  positionNftMint := Pubkey.default
  totalClaimed := 0
  totalToHolders := 0
  totalToBuyback := 0
  totalToProtocol := 0
  lastClaimTs := 0

def registered : Router :=
  { fresh with pools := Function.update fresh.pools (Bytes32.fill 9) (some pool) }

/-- 500 units lie in the receiving account before the first claim. -/
def donated : Router :=
  { registered with quoteRecv := fun mint => { account mint (Bytes32.fill 1) with amount := 500 } }

def claim : ClaimInput where
  now := 1000
  caller := Bytes32.fill 3
  pool := Bytes32.fill 9
  credit := { quote := 1003, base := 0 }

def claimed : Router × ClaimEvents :=
  acceptedValue (handleClaimDbc donated claim) (by decide +kernel)

end Sample

open Sample in
/-- A claim of 1003 units beside 500 that were already there. -/
theorem fees_conserved_sample :
    ∃ ps, claimed.1.pools (Bytes32.fill 9) = some ps ∧ ps.Balanced ∧
      ps.totalClaimed.toNat = 1003 := by
  have hfresh : fresh.Fresh :=
    ⟨⟨none, Bytes32.fill 3, { holdersBps := 5000, buybackBps := 2500, protocolBps := 2500 },
      by decide +kernel⟩, fun _ => rfl⟩
  have h1 : RouterStep fresh (.registered (Bytes32.fill 9)) registered :=
    .register rfl (by decide +kernel : writePoolState config (Bytes32.fill 8) (Bytes32.fill 7) 100 =
      .ok pool)
  have hle : (0 : UInt64) ≤ 500 := by decide
  have h2 : RouterStep registered .moved donated := .move fun _ => hle
  have h3 : RouterStep donated (.claimed claim claimed.2) claimed.1 :=
    .claim (.dbc (eq_ok_acceptedValue (by decide +kernel)))
  obtain ⟨ps, hps⟩ : ∃ ps, claimed.1.pools (Bytes32.fill 9) = some ps :=
    Option.isSome_iff_exists.mp (by decide +kernel)
  exact ⟨ps, hps, (fees_conserved hfresh (.cons h1 (.cons h2 (.single h3)))).2.1 _ ps hps⟩

end IceMarkets.FeeRouter
