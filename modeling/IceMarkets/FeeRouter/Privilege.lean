import IceMarkets.FeeRouter.Books

/-!
# IceMarkets.FeeRouter.Privilege

Whom the program's accounts depend on, over whole runs: what nobody can do without the admin
and the two programs the config names, what is left while the router is paused, and what
stands of a pool once it is registered. The program on the ledger refines the router that
`IceMarkets.FeeRouter.Conservation` is about (`program_refines`).
-/

namespace IceMarkets.FeeRouter

open Lts Books

/-! ### Without the privileged keys -/

section

variable {env : RouterEnv} {s₀ s s' : RouterProgram} {tr : List ProgramAct} {act : ProgramAct}

/-- Signed by none of the keys the config trusts with the vaults or with itself. -/
def ProgramAct.Unprivileged (env : RouterEnv) (s : RouterProgram) : ProgramAct → Prop
  | withdrawn _ signer _ _ _ => signer ≠ s.config.admin ∧
      signer ≠ env.distAuth s.programs.distributor ∧ signer ≠ env.bbAuth s.programs.buyback
  | configured signer => signer ≠ s.config.admin
  | _ => True

theorem Configures.signed {c c' : RouterConfig} {admin : Pubkey} (h : Configures c admin c') :
    admin = c.admin := by
  cases h with
  | setSplit h => exact (require_bind_eq_ok.mp h).1.symm
  | setKeepers h => exact (require_bind_eq_ok.mp h).1.symm
  | pause h => exact (require_bind_eq_ok.mp h).1.symm
  | setPrograms h => exact (require_bind_eq_ok.mp h).1.symm

theorem WithdrawKind.MaySign.signed {kind : WithdrawKind} {signer : Pubkey} {v : Vault}
    (h : kind.MaySign env s signer v) :
    signer = s.config.admin ∨ signer = env.distAuth s.programs.distributor ∨
      signer = env.bbAuth s.programs.buyback := by
  cases kind <;> cases v <;> simp_all [WithdrawKind.MaySign]

/-- An unprivileged step leaves the config and takes from no vault. -/
theorem ProgramStep.unprivileged (hstep : ProgramStep env s act s') (hc : s.config.Splits)
    (hact : act.Unprivileged env s) :
    s'.config = s.config ∧ s'.programs = s.programs ∧ ∀ v, act.taken v = 0 := by
  cases hstep.done hc with
  | claimed h => exact ⟨h.config, h.programs, fun _ => rfl⟩
  | withdrawn hsign _ =>
      obtain ⟨hadmin, hdist, hbb⟩ := hact
      rcases hsign.signed with h | h | h
      · exact absurd h hadmin
      · exact absurd h hdist
      · exact absurd h hbb
  | registered _ _ h =>
      rw [h.state]
      exact ⟨rfl, rfl, fun _ => rfl⟩
  | migrated h =>
      rw [h.state]
      exact ⟨rfl, rfl, fun _ => rfl⟩
  | configured h => exact absurd h.signed hact
  | external _ => exact ⟨rfl, rfl, fun _ => rfl⟩

/-- Whatever others do, in any order: without a signature of the admin or of the two programs
the config stays and no vault loses anything. -/
theorem unprivileged_run (hfresh : s₀.Fresh env) {tr₀ : List ProgramAct}
    (h₀ : ProgramRun env s₀ tr₀ s) (h : ProgramRun env s tr s')
    (htr : ∀ act ∈ tr, act.Unprivileged env s) :
    s'.config = s.config ∧ s'.programs = s.programs ∧
      ∀ v, v.Known env → s.ledger.amount (env.address v) ≤ s'.ledger.amount (env.address v) := by
  have hc := h₀.splits hfresh.splits
  clear h₀ hfresh
  induction h with
  | nil s => exact ⟨rfl, rfl, fun _ _ => le_refl _⟩
  | @cons s t s' act tr head tail ih =>
      obtain ⟨hconfig, hprograms, htaken⟩ := head.unprivileged hc (htr act List.mem_cons_self)
      have htail : ∀ act ∈ tr, act.Unprivileged env t := by
        intro act' hact'
        have hun := htr act' (List.mem_cons_of_mem _ hact')
        unfold ProgramAct.Unprivileged at hun ⊢
        rw [hconfig, hprograms]
        exact hun
      obtain ⟨hconfig', hprograms', hle⟩ := ih htail (head.splits hc)
      refine ⟨hconfig'.trans hconfig, hprograms'.trans hprograms, ?_⟩
      intro v hv
      exact (head.amount_le hc hv (htaken v)).trans (hle v hv)

end

open ProgramSample in
/-- Somebody else's claim. -/
theorem unprivileged_run_sample : claimed.1.config = registered.1.config :=
  (unprivileged_run fresh_fresh (.single step_registered) (.single step_claimed) fun act hact => by
    cases List.mem_singleton.mp hact
    trivial).1

/-! ### While paused -/

section

variable {env : RouterEnv} {s₀ s s' : RouterProgram} {tr : List ProgramAct} {act : ProgramAct}

/-- What is still accepted while the router is paused: the admin takes protocol revenue, and
migrations are recorded. -/
inductive Unpausable (s : RouterProgram) : ProgramAct → Prop
  | withdrawn {mint destination : Pubkey} {amount : UInt64} :
      Unpausable s (.withdrawn .treasury s.config.admin (.treasury mint) destination amount)
  | migrated {pool : Pubkey} : Unpausable s (.migrated pool)
  | external {gift : Vault → Nat} : Unpausable s (.external gift)

theorem ProgramStep.unpausable (hstep : ProgramStep env s act s') (hc : s.config.Splits)
    (hpaused : s.config.paused = true) (hact : ∀ admin, act ≠ .configured admin) :
    Unpausable s act ∧ s'.config = s.config := by
  cases hstep.done hc with
  | claimed h => cases hpaused.symm.trans h.unpaused
  | @withdrawn kind signer v _ _ _ hsign h =>
      rw [h.state]
      cases kind with
      | epoch =>
          cases v with
          | holder _ => cases hpaused.symm.trans hsign.1
          | recv _ | buyback _ | treasury _ => exact hsign.elim
      | buyback =>
          cases v with
          | buyback _ => cases hpaused.symm.trans hsign.1
          | recv _ | holder _ | treasury _ => exact hsign.elim
      | treasury =>
          cases v with
          | treasury _ =>
              obtain rfl : signer = s.config.admin := hsign
              exact ⟨.withdrawn, rfl⟩
          | recv _ | holder _ | buyback _ => exact hsign.elim
  | registered _ _ h => cases hpaused.symm.trans h.unpaused
  | migrated h =>
      rw [h.state]
      exact ⟨.migrated, rfl⟩
  | configured _ => exact absurd rfl (hact _)
  | external _ => exact ⟨.external, rfl⟩

/-- Until the admin unpauses, a run consists of nothing else, and the holders' and buyback
vaults keep what they have. -/
theorem paused_run (hfresh : s₀.Fresh env) {tr₀ : List ProgramAct}
    (h₀ : ProgramRun env s₀ tr₀ s) (hpaused : s.config.paused = true)
    (h : ProgramRun env s tr s') (htr : ∀ act ∈ tr, ∀ admin, act ≠ .configured admin) :
    s'.config = s.config ∧ (∀ act ∈ tr, Unpausable s act) ∧
      ∀ v, v.Known env → (∀ mint, v ≠ .treasury mint) →
        s'.ledger.amount (env.address v) =
          s.ledger.amount (env.address v) + total (·.given env v) tr := by
  have hc := h₀.splits hfresh.splits
  have hrun : s'.config = s.config ∧ ∀ act ∈ tr, Unpausable s act := by
    clear h₀ hfresh
    induction h with
    | nil s => exact ⟨rfl, nofun⟩
    | @cons s t s' act tr head tail ih =>
        obtain ⟨hun, hconfig⟩ := head.unpausable hc hpaused (htr act List.mem_cons_self)
        obtain ⟨hconfig', htail⟩ := ih (by rw [hconfig]; exact hpaused)
          (fun act' hact' => htr act' (List.mem_cons_of_mem _ hact')) (head.splits hc)
        refine ⟨hconfig'.trans hconfig, ?_⟩
        intro act' hact'
        rcases List.mem_cons.mp hact' with rfl | hact'
        · exact hun
        · cases htail act' hact' with
          | withdrawn =>
              rw [hconfig]
              exact .withdrawn
          | migrated => exact .migrated
          | external => exact .external
  refine ⟨hrun.1, hrun.2, ?_⟩
  intro v hv hne
  have hposts := h.posts hc hv
  have htaken : total (·.taken v) tr = 0 := total_eq_zero fun act hact => by
    cases hrun.2 act hact with
    | withdrawn => exact if_neg (hne _)
    | migrated | external => rfl
  have hearned : total (·.earned v) tr = 0 := total_eq_zero fun act hact => by
    cases hrun.2 act hact with
    | withdrawn | migrated | external => rfl
  omega

end

namespace ProgramSample

def paused : RouterProgram := acceptedValue (pause claimed.1 admin true) (by decide +kernel)

theorem step_paused : ProgramStep env claimed.1 (.configured admin) paused :=
  .pause (eq_ok_acceptedValue (x := pause claimed.1 admin true) (by decide +kernel))

/-- The admin sends 10 units of the treasury to the receiving account. -/
def withdrawn : RouterProgram × VaultWithdrawn :=
  acceptedValue (handleWithdrawTreasury env paused admin coin (env.address (.recv coin)) 10)
    (by decide +kernel)

theorem withdrawn_eq :
    handleWithdrawTreasury env paused admin coin (env.address (.recv coin)) 10 =
      .ok (withdrawn.1, withdrawn.2) := by
  rw [Prod.mk.eta]
  exact eq_ok_acceptedValue _

end ProgramSample

open ProgramSample in
theorem paused_run_sample :
    withdrawn.1.ledger.amount (env.address (.holder pool)) =
      paused.ledger.amount (env.address (.holder pool)) := by
  have hrun : ProgramRun env fresh (trace ++ [.configured admin]) paused :=
    run_trace.append (.single step_paused)
  have hstep : ProgramStep env paused
      (.withdrawn .treasury admin (.treasury coin) (env.address (.recv coin)) 10) withdrawn.1 :=
    .withdrawTreasury withdrawn_eq
  have hkept := (paused_run fresh_fresh hrun (by decide +kernel) (.single hstep) fun act hact => by
    cases List.mem_singleton.mp hact
    simp).2.2 (.holder pool) (show env.isAccount pool = true by decide +kernel) (by simp)
  have hgiven : total (ProgramAct.given env (.holder pool))
      [.withdrawn .treasury admin (.treasury coin) (env.address (.recv coin)) 10] = 0 := by
    decide +kernel
  rw [hkept, hgiven, Nat.add_zero]

/-! ### Refinement -/

section

variable {env : RouterEnv} {s₀ s s' : RouterProgram} {tr : List ProgramAct} {act : ProgramAct}

/-- The claim of a step. -/
def ProgramAct.claim? : ProgramAct → Option (ClaimInput × ClaimEvents)
  | claimed x _ _ evs => some (x, evs)
  | _ => none

def RouterAct.claim? : RouterAct → Option (ClaimInput × ClaimEvents)
  | claimed x evs => some (x, evs)
  | _ => none

/-- A step that leaves the pools and the config, and takes from no receiving account. -/
theorem router_move (hconfig : s'.config = s.config) (hpools : s'.pools = s.pools)
    (hrecv : ∀ mint, env.isAccount mint = true →
      s.ledger.amount (env.address (.recv mint)) ≤ s'.ledger.amount (env.address (.recv mint))) :
    RouterStep (s.router env) .moved (s'.router env) := by
  have hmove : RouterStep (s.router env) .moved { s.router env with
      quoteRecv := (s'.router env).quoteRecv, holderVault := (s'.router env).holderVault
      buybackVault := (s'.router env).buybackVault, treasury := (s'.router env).treasury } := by
    refine .move fun mint => ?_
    change (s.account env (.recv mint)).amount ≤ (s'.account env (.recv mint)).amount
    by_cases hmint : env.isAccount mint = true
    · rw [UInt64.le_iff_toNat_le, account_amount (v := .recv mint) hmint,
        account_amount (v := .recv mint) hmint]
      exact hrecv mint hmint
    · have h : RouterProgram.account env { s with pools := s'.pools, ledger := s'.ledger }
          (.recv mint) = s.account env (.recv mint) := account_of_not_known hmint
      have h' : s'.account env (.recv mint) = s.account env (.recv mint) := h
      rw [h']
      exact UInt64.le_refl _
  have heq : s'.router env = { s.router env with
      quoteRecv := (s'.router env).quoteRecv, holderVault := (s'.router env).holderVault
      buybackVault := (s'.router env).buybackVault, treasury := (s'.router env).treasury } := by
    simp only [RouterProgram.router, hconfig, hpools]
  rw [heq]
  exact hmove

/-- One step of the program is one or two of the router. -/
theorem ProgramStep.refines (hstep : ProgramStep env s act s') (hc : s.config.Splits) :
    ∃ acts, RouterRun (s.router env) acts (s'.router env) ∧
      acts.filterMap RouterAct.claim? = act.claim?.toList := by
  have hrecv : ∀ mint, env.isAccount mint = true →
      s.ledger.amount (env.address (.recv mint)) ≤
        s'.ledger.amount (env.address (.recv mint)) := by
    intro mint hmint
    have htaken := ProgramRun.taken_recv (.single hstep) hc mint act List.mem_cons_self
    exact hstep.amount_le hc (v := .recv mint) hmint htaken
  cases hstep.done hc with
  | claimed h => exact ⟨[_], .single (.claim h.claims), rfl⟩
  | withdrawn _ h =>
      have hconfig : s'.config = s.config := by rw [h.state]
      have hpools : s'.pools = s.pools := by rw [h.state]
      exact ⟨[_], .single (router_move hconfig hpools hrecv), rfl⟩
  | @registered a _ feeBps _ _ _ _ h =>
      -- the pool's account is written, then the new token accounts are seen
      obtain ⟨acc, hpools, -, hwrite⟩ := h.pools
      let mid : RouterProgram := { s with pools := s'.pools }
      have hregister : RouterStep (s.router env) (.registered a.dbcPool.key) (mid.router env) := by
        have heq : mid.router env = { s.router env with
            pools := Function.update (s.router env).pools a.dbcPool.key
              (some acc.toPoolState) } := by
          refine router_eq rfl rfl (fun key => ?_) fun v => ?_
          · change (s'.pools key).map _ = _
            rw [hpools]
            by_cases hkey : key = a.dbcPool.key
            · subst hkey
              simp
            · simp [hkey, RouterProgram.router]
          · exact router_vault.symm
        rw [heq]
        exact .register (by simp [RouterProgram.router, h.fresh]) hwrite
      have hconfig : s'.config = mid.config := by rw [h.state]
      exact ⟨[_, _], .cons hregister (.single (router_move hconfig rfl hrecv)), rfl⟩
  | @migrated x force acc ps _ h =>
      have heq : s'.router env = { s.router env with
          pools := Function.update (s.router env).pools x.dbcPool.key (some ps) } := by
        rw [h.state]
        refine router_eq rfl rfl (fun key => ?_) fun v => ?_
        · by_cases hkey : key = x.dbcPool.key
          · subst hkey
            simp
          · simp [hkey, RouterProgram.router]
        · exact router_vault.symm
      refine ⟨[_], .single (a := .migrated x.dbcPool.key) ?_, rfl⟩
      rw [heq]
      exact .recordMigration (by simp [RouterProgram.router, h.pool]) h.record
  | configured h => exact ⟨[_], .single (.configure h), rfl⟩
  | external _ => exact ⟨[_], .single (router_move rfl rfl hrecv), rfl⟩

/-- The program's fresh state is the router's. -/
theorem RouterProgram.Fresh.router (hfresh : s₀.Fresh env) : (s₀.router env).Fresh := by
  constructor
  · obtain ⟨program, programData, payer, args, hinit⟩ := hfresh.config
    unfold initializeRouter at hinit
    obtain ⟨-, hinit⟩ := require_bind_eq_ok.mp hinit
    obtain ⟨⟨⟩, -, hinit⟩ := bind_eq_ok.mp hinit
    obtain ⟨config, hconfig, hinit⟩ := bind_eq_ok.mp hinit
    rw [liftRouter_eq_ok] at hconfig
    have heq := Except.ok.inj hinit
    rw [Prod.mk.injEq] at heq
    rw [heq.1] at hconfig
    exact ⟨none, payer, args, hconfig⟩
  · intro key
    simp [RouterProgram.router, hfresh.pools key]

theorem ProgramStep.valid (hstep : ProgramStep env s act s') (hs : (s.router env).Valid) :
    (s'.router env).Valid := by
  obtain ⟨acts, hrun, -⟩ := hstep.refines hs.splits
  exact hrun.invariant (fun _ _ _ hstep hs => hstep.valid hs) hs

theorem ProgramRun.valid (h : ProgramRun env s tr s') (hs : (s.router env).Valid) :
    (s'.router env).Valid :=
  h.invariant (I := fun s => (s.router env).Valid) (fun _ _ _ hstep hs => hstep.valid hs) hs

/-- Every run of the program on the ledger is a run of the router, with the same claims. -/
theorem program_refines (hfresh : s₀.Fresh env) (h : ProgramRun env s₀ tr s) :
    (s₀.router env).Fresh ∧ ∃ acts, RouterRun (s₀.router env) acts (s.router env) ∧
      acts.filterMap RouterAct.claim? = tr.filterMap ProgramAct.claim? := by
  refine ⟨hfresh.router, ?_⟩
  have hc := hfresh.splits
  clear hfresh
  induction h with
  | nil s => exact ⟨[], .nil _, rfl⟩
  | cons head _ ih =>
      obtain ⟨acts, hrun, hclaims⟩ := head.refines hc
      obtain ⟨acts', hrun', hclaims'⟩ := ih (head.splits hc)
      refine ⟨acts ++ acts', hrun.append hrun', ?_⟩
      rw [List.filterMap_append, hclaims, hclaims', List.filterMap_cons]
      cases ProgramAct.claim? _ <;> rfl

end

open ProgramSample in
theorem program_refines_sample : (fresh.router env).Fresh ∧
    ∃ acts, RouterRun (fresh.router env) acts (claimed.1.router env) ∧
      acts.filterMap RouterAct.claim? = trace.filterMap ProgramAct.claim? :=
  program_refines fresh_fresh run_trace

/-! ### Registered pools -/

section

variable {env : RouterEnv} {s₀ s s' : RouterProgram} {tr : List ProgramAct} {act : ProgramAct}

/-- Every pool was registered, once, from accounts DBC owns, and from accounts that fit
together unless the admin registered it; its terms and its place never change again, and its
totals never fall. -/
theorem pools_listed (hfresh : s₀.Fresh env) (h : ProgramRun env s₀ tr s) {pool : Pubkey}
    {acc : PoolAccount} (hacc : s.pools pool = some acc) :
    (∃ a pegDesk, .registered a acc.listing pegDesk ∈ tr ∧ a.dbcPool.key = pool ∧
      a.dbcPool.owner = dbcProgramId ∧ a.dbcConfig.owner = dbcProgramId ∧
      ∀ key ∈ pegDesk, ∃ c p m, Matches env.key key a c p m ∧ p.creator = acc.creator) ∧
    ∀ tr' s', ProgramRun env s tr' s' →
      ∃ acc', s'.pools pool = some acc' ∧ acc'.listing = acc.listing ∧
        acc.totalClaimed ≤ acc'.totalClaimed ∧
        ∀ party, acc.toPoolState.paid party ≤ acc'.toPoolState.paid party := by
  have hc := h.splits hfresh.splits
  have hvalid := h.valid hfresh.router.valid
  constructor
  · rcases h.listed hfresh.splits hacc with ⟨acc₀, hacc₀, -⟩ | hlisted
    · rw [hfresh.pools pool] at hacc₀
      cases hacc₀
    · exact hlisted
  · intro tr' s' h'
    obtain ⟨acc', hacc', hlisting⟩ := h'.keeps hc pool acc hacc
    have hpaid : ∀ party, acc.toPoolState.paid party ≤ acc'.toPoolState.paid party := by
      intro party
      have hle := (ProgramStep.posts_paid env pool party).le
        (fun _ _ _ hstep hc => hstep.splits hc) h' hc fun _ _ => rfl
      rwa [paid_of_some hacc, paid_of_some hacc'] at hle
    refine ⟨acc', hacc', hlisting, ?_, hpaid⟩
    -- what was claimed is what the three were paid
    have hsum : acc.toPoolState.Balanced :=
      hvalid.balanced pool _ (by simp [RouterProgram.router, hacc])
    have hsum' : acc'.toPoolState.Balanced :=
      (h'.valid hvalid).balanced pool _ (by simp [RouterProgram.router, hacc'])
    unfold PoolState.Balanced at hsum hsum'
    have hholders : acc.totalToHolders.toNat ≤ acc'.totalToHolders.toNat := hpaid .holders
    have hbuyback : acc.totalToBuyback.toNat ≤ acc'.totalToBuyback.toNat := hpaid .buyback
    have hprotocol : acc.totalToProtocol.toNat ≤ acc'.totalToProtocol.toNat := hpaid .protocol
    rw [UInt64.le_iff_toNat_le]
    omega

end

open ProgramSample in
theorem pools_listed_sample : ∃ acc, claimed.1.pools pool = some acc ∧
    ∃ a pegDesk, .registered a acc.listing pegDesk ∈ trace ∧ a.dbcPool.key = pool := by
  obtain ⟨acc, hacc⟩ : ∃ acc, claimed.1.pools pool = some acc :=
    Option.isSome_iff_exists.mp (by decide +kernel)
  obtain ⟨⟨a, pegDesk, hmem, hkey, -⟩, -⟩ := pools_listed fresh_fresh run_trace hacc
  exact ⟨acc, hacc, a, pegDesk, hmem, hkey⟩

end IceMarkets.FeeRouter
