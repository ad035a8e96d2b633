import IceMarkets.Payouts.Books

/-!
# IceMarkets.Payouts.Privilege

What is left to everybody but the distributor's admin and keepers: wallets claim what the posted
trees promise them, once each.
-/

namespace IceMarkets.Payouts

open Lts Books Distributor

section

variable {env : PayoutEnv} {s t s' s₀ : PayoutSystem} {clock₀ clock clock' : Int}
  {tr tr₀ : List (Int × PayoutAct)}

namespace PayoutAct

/-- Signed by none of the keys the distributor's config trusts. -/
def Unprivileged (c : DistConfig) : PayoutAct → Prop
  | opened _ _ keeper _ _ | pushed _ _ keeper _ _ | finalized _ keeper _ _ =>
      c.isAdminOrKeeper keeper = false
  | swept _ _ admin _ _ | configured admin _ => admin ≠ c.admin
  | _ => True

/-- Claimed from an epoch. -/
def claims (id : EpochId) : PayoutAct → Nat
  | claimed id' _ _ amount => if id' = id then amount.toNat else 0
  | _ => 0

end PayoutAct

/-- The receipt is of a leaf of the epoch's posted root. -/
def Promised (env : PayoutEnv) (s : PayoutSystem) (id : EpochId) (c : Claimed) : Prop :=
  ∃ e proof, s.epochs id = some e ∧ e.finalized = true ∧
    verify env.keccak256 proof e.merkleRoot
      (leaf env.keccak256 (env.epochKey id) c.wallet c.amount) = true

/-- The steps `tr` from `s` to `s'` did nothing to the epochs but claim. -/
structure OnlyClaims (env : PayoutEnv) (s : PayoutSystem) (tr : List (Int × PayoutAct))
    (s' : PayoutSystem) : Prop where
  config : s'.config = s.config
  epochs : ∀ id, ∃ n, s'.epochs id = (s.epochs id).map fun e => { e with claimedAmount := n }
  receipts : ∀ id, ∃ new, s'.claimed id = new ++ s.claimed id ∧ (∀ c ∈ new, Promised env s id c) ∧
    total (·.amount.toNat) new = total (·.2.claims id) tr
  vault : ∀ id e, s.epochs id = some e →
    s'.router.ledger.amount (env.vault id e.coinMint) + total (·.2.claims id) tr =
      s.router.ledger.amount (env.vault id e.coinMint) +
        total (·.2.given env (.epoch id e.coinMint)) tr

theorem map_claimedAmount (o : Option Epoch) :
    ∃ n, o = o.map fun e => { e with claimedAmount := n } := by
  cases o with
  | none => exact ⟨0, rfl⟩
  | some e => exact ⟨e.claimedAmount, rfl⟩

/-- A promise of the epochs after some claims was one before. -/
theorem Promised.of_epochs {id : EpochId} {c : Claimed} {n : UInt64} (h : Promised env t id c)
    (ht : t.epochs id = (s.epochs id).map fun e => { e with claimedAmount := n }) :
    Promised env s id c := by
  obtain ⟨e, proof, he, hfin, hproof⟩ := h
  rw [ht] at he
  obtain ⟨e₀, he₀, rfl⟩ := Option.map_eq_some_iff.mp he
  exact ⟨e₀, proof, he₀, hfin, hproof⟩

theorem OnlyClaims.cons {a : Int × PayoutAct} (h : OnlyClaims env s [a] t)
    (h' : OnlyClaims env t tr s') : OnlyClaims env s (a :: tr) s' where
  config := h'.config.trans h.config
  epochs id := by
    obtain ⟨n, hn⟩ := h.epochs id
    obtain ⟨n', hn'⟩ := h'.epochs id
    refine ⟨n', ?_⟩
    rw [hn', hn, Option.map_map]
    rfl
  receipts id := by
    obtain ⟨new, hnew, hpromised, htotal⟩ := h.receipts id
    obtain ⟨new', hnew', hpromised', htotal'⟩ := h'.receipts id
    obtain ⟨n, hn⟩ := h.epochs id
    refine ⟨new' ++ new, by rw [hnew', hnew, List.append_assoc], ?_, ?_⟩
    · intro c hc
      rcases List.mem_append.mp hc with hc | hc
      · exact (hpromised' c hc).of_epochs hn
      · exact hpromised c hc
    · rw [total_append, htotal, htotal']
      simp only [total_cons, total_nil]
      omega
  vault id e he := by
    obtain ⟨n, hn⟩ := h.epochs id
    have he' : t.epochs id = some { e with claimedAmount := n } := by rw [hn, he]; rfl
    have hfirst := h.vault id e he
    have hrest : s'.router.ledger.amount (env.vault id e.coinMint) + total (·.2.claims id) tr =
        t.router.ledger.amount (env.vault id e.coinMint) +
          total (·.2.given env (.epoch id e.coinMint)) tr :=
        h'.vault id { e with claimedAmount := n } he'
    simp only [total_cons, total_nil] at hfirst ⊢
    omega

theorem OnlyClaims.refl (s : PayoutSystem) : OnlyClaims env s [] s where
  config := rfl
  epochs id := map_claimedAmount _
  receipts id := ⟨[], rfl, by simp, rfl⟩
  vault _ _ _ := rfl

/-- A step that leaves the distributor's accounts. -/
theorem OnlyClaims.of_same {a : Int × PayoutAct} (hposted : Posted env s a.2 s')
    (hinv : Inv env s) (hconfig : s'.config = s.config) (hepochs : s'.epochs = s.epochs)
    (hclaimed : s'.claimed = s.claimed) (hclaims : ∀ id, a.2.claims id = 0)
    (htaken : ∀ id mint, a.2.taken (.epoch id mint) = 0) : OnlyClaims env s [a] s' where
  config := hconfig
  epochs id := by
    rw [hepochs]
    exact map_claimedAmount _
  receipts id := ⟨[], by rw [hclaimed]; rfl, by simp, by simp [hclaims id]⟩
  vault id e he := by
    have hamount := hposted.amount (.epoch id e.coinMint) (hinv.known id e he)
    rw [htaken, earned_epoch, Nat.zero_add] at hamount
    simp only [total_cons, total_nil, hclaims id]
    exact hamount

/-- Without the admin and the keepers, a step claims or leaves the epochs alone. -/
theorem PayoutStep.unprivileged {a : Int × PayoutAct} (hstep : PayoutStep env s a s')
    (hinv : Inv env s) (ha : a.2.Unprivileged s.config) : OnlyClaims env s [a] s' := by
  have hposted := hstep.posted hinv
  cases hstep.done with
  | router _ _ => exact .of_same hposted hinv rfl rfl rfl (fun _ => rfl) fun _ _ => rfl
  | opened _ _ _ h =>
      have hkeeper := (handleOpenEpoch_moves h).keeper
      have hother : s.config.isAdminOrKeeper _ = false := ha
      cases hkeeper.symm.trans hother
  | pushed _ h =>
      have hkeeper := (handlePushPayouts_moves h).keeper
      have hother : s.config.isAdminOrKeeper _ = false := ha
      cases hkeeper.symm.trans hother
  | finalized h =>
      have hkeeper := (handleFinalizeEpoch_keeper h).1
      have hother : s.config.isAdminOrKeeper _ = false := ha
      cases hkeeper.symm.trans hother
  | @claimed id e x ev d he hsigner h =>
      obtain ⟨e₀, heff⟩ := handleClaim_ok h
      obtain ⟨newClaimed, -, he'⟩ := heff.epoch'
      obtain rfl : e₀ = e := Option.some.inj (heff.epoch.symm.trans he)
      refine ⟨rfl, fun id' => ?_, fun id' => ?_, fun id' e' he₁ => ?_⟩
      · by_cases hid : id' = id
        · subst hid
          exact ⟨newClaimed, by rw [store_epochs, he', he]; rfl⟩
        · rw [store_epochs_of_ne hid]
          exact map_claimedAmount _
      · by_cases hid : id' = id
        · subst hid
          refine ⟨[{ epoch := env.epochKey id', wallet := x.wallet, amount := x.amount }], ?_, ?_,
            ?_⟩
          · exact (Function.update_self ..).trans heff.claimed
          · intro c hc
            obtain rfl := List.mem_singleton.mp hc
            exact ⟨e₀, x.proof, he, heff.finalized, heff.proof⟩
          · simp [PayoutAct.claims]
        · refine ⟨[], Function.update_of_ne hid .., by simp, ?_⟩
          simp [PayoutAct.claims, Ne.symm hid]
      · have hamount := hposted.amount (.epoch id' e'.coinMint) (hinv.known id' e' he₁)
        rw [earned_epoch, Nat.zero_add] at hamount
        have htaken : PayoutAct.taken (.claimed id e₀.coinMint x.wallet x.amount)
            (.epoch id' e'.coinMint) =
            PayoutAct.claims id' (.claimed id e₀.coinMint x.wallet x.amount) := by
          by_cases hid : id = id'
          · subst hid
            cases he.symm.trans he₁
            simp [PayoutAct.taken, PayoutAct.claims]
          · simp [PayoutAct.taken, PayoutAct.claims, hid, Ne.symm hid]
        rw [htaken] at hamount
        simp only [total_cons, total_nil, Nat.add_zero]
        exact hamount
  | swept _ h =>
      have hadmin := (handleSweepUnclaimed_moves h).1
      exact absurd hadmin ha
  | configured h => exact absurd h.signed.symm ha
  | external _ => exact .of_same hposted hinv rfl rfl rfl (fun _ => rfl) fun _ _ => rfl

theorem PayoutRun.onlyClaims {p p' : PayoutSystem × Int} (h : PayoutRun env p tr p')
    (hinv : Inv env p.1) (htr : ∀ a ∈ tr, a.2.Unprivileged p.1.config) :
    OnlyClaims env p.1 tr p'.1 := by
  induction h with
  | nil p => exact .refl p.1
  | @cons p q p' a tr head _ ih =>
      have hfirst := head.step.unprivileged hinv (htr a List.mem_cons_self)
      refine hfirst.cons (ih (head.step.inv hinv) ?_)
      intro b hb
      rw [hfirst.config]
      exact htr b (List.mem_cons_of_mem _ hb)

/-- Nobody claims twice from an epoch. -/
def Once (s : PayoutSystem) : Prop := ∀ id, ((s.claimed id).map (·.wallet)).Nodup

theorem once_store {id : EpochId} {d : Distribution} (h : Once s)
    (hd : (d.claimed.map (·.wallet)).Nodup) : Once (s.store id d) := by
  intro id'
  by_cases hid : id' = id
  · subst hid
    rw [show (s.store id' d).claimed id' = d.claimed from Function.update_self ..]
    exact hd
  · rw [show (s.store id d).claimed id' = s.claimed id' from Function.update_of_ne hid ..]
    exact h id'

theorem PayoutStep.once {a : Int × PayoutAct} (hstep : PayoutStep env s a s') (hs : Once s) :
    Once s' := by
  cases hstep.done with
  | router _ _ | configured _ | external _ => exact hs
  | @opened id mint x ev d hid hknown hsigns h =>
      refine once_store hs ?_
      rw [(handleOpenEpoch_ok h).claimed]
      exact hs id
  | @pushed _ id e x evs d he h =>
      obtain ⟨e₀, heff⟩ := handlePushPayouts_ok h
      refine once_store hs ?_
      rw [heff.claimed]
      exact hs id
  | @finalized _ id keeper merkleRoot merkleTotal ev d h =>
      obtain ⟨e, heff⟩ := handleFinalizeEpoch_ok h
      refine once_store hs ?_
      rw [heff.state]
      exact hs id
  | @claimed id e x ev d he hsigner h =>
      obtain ⟨e₀, heff⟩ := handleClaim_ok h
      refine once_store hs ?_
      rw [heff.claimed, List.map_cons, List.nodup_cons]
      refine ⟨fun hmem => ?_, hs id⟩
      obtain ⟨c, hc, hwallet⟩ := List.mem_map.mp hmem
      exact heff.unclaimed c hc hwallet
  | @swept id e x ev d he h =>
      obtain ⟨e₀, heff⟩ := handleSweepUnclaimed_ok h
      refine once_store hs ?_
      rw [heff.claimed]
      exact hs id

/-- From a reachable state on, whatever others do in any order, without a signature of the
distributor's admin or of a keeper the config stays, no epoch is opened, pushed, finalized or
swept, and the vault of an epoch loses only what wallets claim, each once and by a leaf of the
posted root. -/
theorem unprivileged_payouts (hfresh : s₀.Fresh env)
    (h₀ : PayoutRun env (s₀, clock₀) tr₀ (s, clock)) (h : PayoutRun env (s, clock) tr (s', clock'))
    (htr : ∀ a ∈ tr, a.2.Unprivileged s.config) :
    OnlyClaims env s tr s' ∧ ∀ id, ((s'.claimed id).map (·.wallet)).Nodup := by
  have honce : Once s₀ := by
    intro id
    rw [hfresh.claimed id]
    exact List.nodup_nil
  have hall : Once s' := (h₀.append h).invariant (I := fun p : PayoutSystem × Int => Once p.1)
    (fun _ _ _ hstep hs => hstep.step.once hs) honce
  exact ⟨h.onlyClaims (h₀.inv hfresh.inv) htr, hall⟩

end

open PayoutSample in
/-- `walletB`'s claim. -/
theorem unprivileged_payouts_sample : OnlyClaims env finalized.1 [claimStep] claimed.1 :=
  (unprivileged_payouts fresh_fresh run_posted run_claimed fun a ha => by
    cases List.mem_singleton.mp ha
    trivial).1

end IceMarkets.Payouts
