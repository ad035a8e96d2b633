import IceMarkets.FeeRouter.Claim
import IceMarkets.Lib.FloorShares

/-!
# IceMarkets.FeeRouter.ClaimEffect

What an accepted claim did (`ClaimEffect`), whichever of the three it was, and when its
arithmetic fails. Results about runs are read off these and never unfold a handler.
-/

namespace IceMarkets.FeeRouter

open FloorShares

/-! ### Shares -/

/-- The split of a config adds up to the whole, as `check_split` demands. -/
def RouterConfig.Splits (c : RouterConfig) : Prop :=
  c.holdersBps.toNat + c.buybackBps.toNat + c.protocolBps.toNat = bpsDenom

/-- The three shares of an amount. -/
structure Shares (c : RouterConfig) (amount h b p : Nat) : Prop where
  holders : h = amount * c.holdersBps.toNat / bpsDenom
  buyback : b = amount * c.buybackBps.toNat / bpsDenom
  sum : h + b + p = amount
  protocol : amount * c.protocolBps.toNat ≤ p * bpsDenom

/-- The two floors leave a remainder, which covers the protocol's exact part. -/
theorem floors_le {c : RouterConfig} (hc : c.Splits) (amount : Nat) :
    amount * c.holdersBps.toNat / bpsDenom + amount * c.buybackBps.toNat / bpsDenom ≤ amount ∧
      amount * c.protocolBps.toNat ≤
        (amount - (amount * c.holdersBps.toNat / bpsDenom + amount * c.buybackBps.toNat / bpsDenom))
          * bpsDenom := by
  have hweights : [c.holdersBps.toNat, c.buybackBps.toNat].sum + c.protocolBps.toNat =
      bpsDenom := by
    simpa [RouterConfig.Splits] using hc
  have hle := sum_shares_le (F := amount) (by decide) (Nat.le.intro hweights)
  have hrem := mul_le_remainder (F := amount) hweights
  simp only [shares_cons, shares_nil, List.sum_cons, List.sum_nil, Nat.add_zero] at hle hrem
  exact ⟨hle, hrem⟩

/-- The split never fails on an accepted config. -/
theorem exists_splitAmounts {c : RouterConfig} (hc : c.Splits) (amount : UInt64) :
    ∃ h b p, splitAmounts amount c.holdersBps c.buybackBps = some (h, b, p) ∧
      Shares c amount.toNat h.toNat b.toNat p.toNat := by
  have hlt := amount.toNat_lt
  obtain ⟨hle, hrem⟩ := floors_le hc amount.toNat
  have hh : (UInt64.ofNat (amount.toNat * c.holdersBps.toNat / bpsDenom)).toNat =
      amount.toNat * c.holdersBps.toNat / bpsDenom := by
    have hle' := (Nat.le_add_right _ _).trans hle
    rw [UInt64.toNat_ofNat', Nat.mod_eq_of_lt (hle'.trans_lt hlt)]
  have hb : (UInt64.ofNat (amount.toNat * c.buybackBps.toNat / bpsDenom)).toNat =
      amount.toNat * c.buybackBps.toNat / bpsDenom := by
    have hle' := (Nat.le_add_left _ _).trans hle
    rw [UInt64.toNat_ofNat', Nat.mod_eq_of_lt (hle'.trans_lt hlt)]
  generalize hH : UInt64.ofNat (amount.toNat * c.holdersBps.toNat / bpsDenom) = holders at hh
  generalize hB : UInt64.ofNat (amount.toNat * c.buybackBps.toNat / bpsDenom) = buyback at hb
  rw [← hh, ← hb] at hle hrem
  have h1 : checkedSub amount holders = some (amount - holders) := by
    rw [checkedSub_eq_some, toNat_sub_of_toNat_le (by omega)]
    omega
  have h1' : (amount - holders).toNat = amount.toNat - holders.toNat :=
    toNat_sub_of_toNat_le (by omega)
  have h2 : checkedSub (amount - holders) buyback = some (amount - holders - buyback) := by
    rw [checkedSub_eq_some, toNat_sub_of_toNat_le (by omega)]
    omega
  have h2' : (amount - holders - buyback).toNat = amount.toNat - holders.toNat - buyback.toNat := by
    rw [toNat_sub_of_toNat_le (by omega), h1']
  refine ⟨holders, buyback, amount - holders - buyback, ?_, hh, hb, by omega, ?_⟩
  · simp [splitAmounts, hH, hB, h1, h2]
  · rw [h2', Nat.sub_sub]
    exact hrem

/-! ### Credits -/

/-- The account at `k` holds `n` more, and nothing else changed. -/
structure Credits (f f' : Pubkey → TokenAccount) (k : Pubkey) (n : Nat) : Prop where
  eq : f' = Function.update f k { f k with amount := (f' k).amount }
  amount : (f' k).amount.toNat = (f k).amount.toNat + n

namespace Credits

variable {f f' f'' : Pubkey → TokenAccount} {k : Pubkey} {n : Nat}

theorem update {a : TokenAccount} (heq : a = { f k with amount := a.amount })
    (h : a.amount.toNat = (f k).amount.toNat + n) : Credits f (Function.update f k a) k n := by
  constructor
  · simp [← heq]
  · simpa using h

theorem zero : Credits f f k 0 := by
  constructor
  · simp
  · simp

/-- What was credited and is taken again leaves the accounts as they were. -/
theorem cancel (h : Credits f f' k n) (h' : Credits f'' f' k n) : f'' = f := by
  have hamount : (f'' k).amount = (f k).amount := by
    have h1 := h.amount
    have h2 := h'.amount
    exact UInt64.toNat_inj.mp (by omega)
  funext j
  by_cases hj : j = k
  · subst hj
    have h1 := congrFun (h.eq.symm.trans h'.eq) j
    simp only [Function.update_self] at h1
    rw [TokenAccount.mk.injEq] at h1
    cases hf : f j with
    | mk mint owner amount =>
        cases hf'' : f'' j with
        | mk mint' owner' amount' =>
            rw [hf, hf''] at h1 hamount
            simp_all
  · have h1 := congrFun (h.eq.symm.trans h'.eq) j
    simpa [Function.update_of_ne hj] using h1.symm

end Credits

/-! ### What a split did -/

/-- A pool's totals, as numbers. -/
structure PoolState.Counts (ps ps' : PoolState) (amount h b p : Nat) : Prop where
  claimed : ps'.totalClaimed.toNat = ps.totalClaimed.toNat + amount
  holders : ps'.totalToHolders.toNat = ps.totalToHolders.toNat + h
  buyback : ps'.totalToBuyback.toNat = ps.totalToBuyback.toNat + b
  protocol : ps'.totalToProtocol.toNat = ps.totalToProtocol.toNat + p

/-- The event of a split names the pool and the three shares; a split of nothing has none. -/
def ReportsSplit (pool : Pubkey) (amount h b p : Nat) : Option FeesSplit → Prop
  | none => amount = 0
  | some ev => ev.pool = pool ∧ ev.holders.toNat = h ∧ ev.buyback.toNat = b ∧ ev.protocol.toNat = p

/-- What an accepted split did: the shares left the receiving account for the three vaults
and were counted. -/
structure SplitEffect (s : Router) (pool : Pubkey) (ps : PoolState) (amount : Nat) (s' : Router)
    (ev : Option FeesSplit) (h b p : Nat) : Prop where
  key : s'.key = s.key
  config : s'.config = s.config
  shares : Shares s.config amount h b p
  reports : ReportsSplit pool amount h b p ev
  pools : ∃ ps', s'.pools = Function.update s.pools pool (some ps') ∧ ps.Counts ps' amount h b p
  quoteRecv : Credits s'.quoteRecv s.quoteRecv ps.quoteMint amount
  holderVault : Credits s.holderVault s'.holderVault pool h
  buybackVault : Credits s.buybackVault s'.buybackVault ps.quoteMint b
  treasury : Credits s.treasury s'.treasury ps.quoteMint p

theorem transferFromRouter_ok {router : Pubkey} {source dst source' dst' : TokenAccount}
    {amount : UInt64} (h : transferFromRouter router source dst amount = .ok (source', dst')) :
    source'.amount.toNat + amount.toNat = source.amount.toNat ∧
      dst'.amount.toNat = dst.amount.toNat + amount.toNat ∧
      source' = { source with amount := source'.amount } ∧
      dst' = { dst with amount := dst'.amount } := by
  unfold transferFromRouter at h
  by_cases hamount : amount = 0
  · rw [if_pos hamount] at h
    cases h
    simp [hamount]
  · rw [if_neg hamount] at h
    exact Token.transfer_eq_ok (liftToken_eq_ok.mp h)

theorem split_ok {s s' : Router} {pool : Pubkey} {ps : PoolState} {amount : UInt64}
    {ev : Option FeesSplit} (hc : s.config.Splits) (h : split s pool ps amount = .ok (s', ev)) :
    ∃ h b p, SplitEffect s pool ps amount.toNat s' ev h b p := by
  unfold split at h
  by_cases hamount : amount = 0
  · -- nothing arrived: only the pool account is written
    rw [if_pos hamount] at h
    cases h
    subst hamount
    exact ⟨0, 0, 0, {
      key := rfl
      config := rfl
      shares := ⟨by simp, by simp, rfl, by simp⟩
      reports := rfl
      pools := ⟨ps, rfl, rfl, rfl, rfl, rfl⟩
      quoteRecv := .zero
      holderVault := .zero
      buybackVault := .zero
      treasury := .zero }⟩
  · rw [if_neg hamount] at h
    obtain ⟨⟨holders, buyback, protocol⟩, hsplit, h⟩ := okOr_bind_eq_ok.mp h
    obtain ⟨_, _, _, hsplit', hshares⟩ := exists_splitAmounts hc amount
    cases hsplit.symm.trans hsplit'
    obtain ⟨⟨source₁, holderVault⟩, h1, h⟩ := bind_eq_ok.mp h
    obtain ⟨⟨source₂, buybackVault⟩, h2, h⟩ := bind_eq_ok.mp h
    obtain ⟨⟨source₃, treasury⟩, h3, h⟩ := bind_eq_ok.mp h
    obtain ⟨claimed, hclaimed, h⟩ := okOr_bind_eq_ok.mp h
    obtain ⟨toHolders, htoHolders, h⟩ := okOr_bind_eq_ok.mp h
    obtain ⟨toBuyback, htoBuyback, h⟩ := okOr_bind_eq_ok.mp h
    obtain ⟨toProtocol, htoProtocol, h⟩ := okOr_bind_eq_ok.mp h
    cases h
    rw [checkedAdd_eq_some] at hclaimed htoHolders htoBuyback htoProtocol
    obtain ⟨hs1, hd1, hse1, hde1⟩ := transferFromRouter_ok h1
    obtain ⟨hs2, hd2, hse2, hde2⟩ := transferFromRouter_ok h2
    obtain ⟨hs3, hd3, hse3, hde3⟩ := transferFromRouter_ok h3
    have hsum := hshares.sum
    refine ⟨holders.toNat, buyback.toNat, protocol.toNat, {
      key := rfl
      config := rfl
      shares := hshares
      reports := ⟨rfl, rfl, rfl, rfl⟩
      pools := ⟨_, rfl, hclaimed, htoHolders, htoBuyback, htoProtocol⟩
      quoteRecv := ?_
      holderVault := .update hde1 hd1
      buybackVault := .update hde2 hd2
      treasury := .update hde3 hd3 }⟩
    -- the three amounts leave the receiving account one after the other
    have hsource : source₃ = { s.quoteRecv ps.quoteMint with amount := source₃.amount } := by
      rw [hse3, hse2, hse1]
    constructor
    · rw [hsource]
      simp
    · simp only [Function.update_self]
      omega

/-- A split writes the totals of the pool alone. -/
theorem split_pools {s s' : Router} {pool : Pubkey} {ps : PoolState} {amount : UInt64}
    {ev : Option FeesSplit} (h : split s pool ps amount = .ok (s', ev)) :
    ∃ claimed holders buyback protocol, s'.pools = Function.update s.pools pool (some { ps with
      totalClaimed := claimed, totalToHolders := holders, totalToBuyback := buyback
      totalToProtocol := protocol }) := by
  unfold split at h
  by_cases hamount : amount = 0
  · rw [if_pos hamount] at h
    cases h
    exact ⟨_, _, _, _, rfl⟩
  · rw [if_neg hamount] at h
    obtain ⟨⟨holders, buyback, protocol⟩, -, h⟩ := okOr_bind_eq_ok.mp h
    obtain ⟨_, -, h⟩ := bind_eq_ok.mp h
    obtain ⟨_, -, h⟩ := bind_eq_ok.mp h
    obtain ⟨_, -, h⟩ := bind_eq_ok.mp h
    obtain ⟨claimed, -, h⟩ := okOr_bind_eq_ok.mp h
    obtain ⟨toHolders, -, h⟩ := okOr_bind_eq_ok.mp h
    obtain ⟨toBuyback, -, h⟩ := okOr_bind_eq_ok.mp h
    obtain ⟨toProtocol, -, h⟩ := okOr_bind_eq_ok.mp h
    cases h
    exact ⟨_, _, _, _, rfl⟩

/-! ### What a claim did -/

/-- What one of the three handlers returned. -/
inductive Claims (s : Router) (x : ClaimInput) (r : RouterResult (Router × ClaimEvents)) : Prop
  | dbc (h : handleClaimDbc s x = r)
  | surplus (h : handleClaimDbcSurplus s x = r)
  | damm {positionNft : TokenAccount} (h : handleClaimDamm s x positionNft = r)

/-- What an accepted claim did. The base side, which a surplus claim lacks, goes to the
treasury; the receiving accounts end as they were. -/
structure ClaimEffect (s : Router) (x : ClaimInput) (ps : PoolState) (s' : Router)
    (evs : ClaimEvents) (base h b p : Nat) : Prop where
  pool : s.pools x.pool = some ps
  key : s'.key = s.key
  config : s'.config = s.config
  received : evs.claimed.quoteAmount = x.credit.quote
  shares : Shares s.config x.credit.quote.toNat h b p
  reports : ReportsSplit x.pool x.credit.quote.toNat h b p evs.split
  pools : ∃ ps', s'.pools = Function.update s.pools x.pool (some ps') ∧
    ps.Counts ps' x.credit.quote.toNat h b p
  quoteRecv : s'.quoteRecv = s.quoteRecv
  holderVault : Credits s.holderVault s'.holderVault x.pool h
  buybackVault : Credits s.buybackVault s'.buybackVault ps.quoteMint b
  treasury : ∃ mid, Credits s.treasury mid ps.baseMint base ∧
    Credits mid s'.treasury ps.quoteMint p

theorem creditAccount_ok {a a' : TokenAccount} {amount : UInt64}
    (h : creditAccount a amount = .ok a') :
    a' = { a with amount := a'.amount } ∧ a'.amount.toNat = a.amount.toNat + amount.toNat := by
  unfold creditAccount at h
  split at h
  · next hadd =>
      cases h
      exact ⟨rfl, checkedAdd_eq_some.mp hadd⟩
  · cases h

/-- What the router sees arrive is what was credited. -/
theorem saturatingSub_credited {a a' : TokenAccount} {amount : UInt64}
    (h : a'.amount.toNat = a.amount.toNat + amount.toNat) :
    saturatingSub a'.amount a.amount = amount := by
  rw [← UInt64.toNat_inj, saturatingSub_toNat]
  omega

theorem receiveQuote_ok {s s' : Router} {mint : Pubkey} {amount seen : UInt64}
    (h : receiveQuote s mint amount = .ok (s', seen)) :
    seen = amount ∧ ∃ recv, s' = { s with quoteRecv := recv } ∧
      Credits s.quoteRecv recv mint amount.toNat := by
  unfold receiveQuote at h
  obtain ⟨recv, hrecv, h⟩ := bind_eq_ok.mp h
  cases h
  obtain ⟨heq, hamount⟩ := creditAccount_ok hrecv
  exact ⟨saturatingSub_credited hamount, _, rfl, .update heq hamount⟩

theorem receiveBase_ok {s s' : Router} {mint : Pubkey} {amount seen : UInt64}
    (h : receiveBase s mint amount = .ok (s', seen)) :
    seen = amount ∧ ∃ treasury, s' = { s with treasury } ∧
      Credits s.treasury treasury mint amount.toNat := by
  unfold receiveBase at h
  obtain ⟨treasury, htreasury, h⟩ := bind_eq_ok.mp h
  cases h
  obtain ⟨heq, hamount⟩ := creditAccount_ok htreasury
  exact ⟨saturatingSub_credited hamount, _, rfl, .update heq hamount⟩

theorem loadPool_ok {s : Router} {pool : Pubkey} {ps : PoolState} (h : loadPool s pool = .ok ps) :
    s.pools pool = some ps := by
  unfold loadPool at h
  have h := liftAnchor_eq_ok.mp h
  cases hp : s.pools pool with
  | none => rw [hp] at h; cases h
  | some ps' => rw [hp] at h; cases h; rfl

/-- How every accepted claim ends: the base it received, if any, is in the treasury, and the quote
arrives and is split. -/
structure ClaimEnds (s : Router) (x : ClaimInput) (ps : PoolState) (s' : Router)
    (evs : ClaimEvents) : Prop where
  pool : s.pools x.pool = some ps
  unpaused : s.config.paused = false
  split : ∃ treasury s₁ ts,
    Credits s.treasury treasury ps.baseMint evs.claimed.baseAmount.toNat ∧
      receiveQuote { s with treasury } ps.quoteMint x.credit.quote =
        .ok (s₁, evs.claimed.quoteAmount) ∧
      FeeRouter.split s₁ x.pool { ps with lastClaimTs := ts } evs.claimed.quoteAmount =
        .ok (s', evs.split)

theorem handleClaimDbcSurplus_ends {s s' : Router} {x : ClaimInput} {evs : ClaimEvents}
    (h : handleClaimDbcSurplus s x = .ok (s', evs)) :
    evs.claimed.baseAmount = 0 ∧ ∃ ps, ClaimEnds s x ps s' evs := by
  unfold handleClaimDbcSurplus at h
  obtain ⟨ps, hps, h⟩ := bind_eq_ok.mp h
  obtain ⟨hpaused, h⟩ := require_bind_eq_ok.mp h
  obtain ⟨-, h⟩ := require_bind_eq_ok.mp h
  obtain ⟨⟨s₂, quoteAmount⟩, hq, h⟩ := bind_eq_ok.mp h
  obtain ⟨⟨s₃, ev⟩, hsplit, h⟩ := bind_eq_ok.mp h
  cases h
  exact ⟨rfl, ps, loadPool_ok hps, hpaused, s.treasury, s₂, _, .zero, hq, hsplit⟩

theorem Claims.ends {s s' : Router} {x : ClaimInput} {evs : ClaimEvents}
    (h : Claims s x (.ok (s', evs))) : ∃ ps, ClaimEnds s x ps s' evs := by
  cases h with
  | dbc h =>
      unfold handleClaimDbc at h
      obtain ⟨ps, hps, h⟩ := bind_eq_ok.mp h
      obtain ⟨hpaused, h⟩ := require_bind_eq_ok.mp h
      obtain ⟨-, -, h⟩ := bind_eq_ok.mp h
      obtain ⟨⟨s₁, baseAmount⟩, hb, h⟩ := bind_eq_ok.mp h
      obtain ⟨⟨s₂, quoteAmount⟩, hq, h⟩ := bind_eq_ok.mp h
      obtain ⟨⟨s₃, ev⟩, hsplit, h⟩ := bind_eq_ok.mp h
      cases h
      obtain ⟨rfl, treasury, rfl, hbase⟩ := receiveBase_ok hb
      exact ⟨ps, loadPool_ok hps, hpaused, treasury, s₂, _, hbase, hq, hsplit⟩
  | surplus h => exact (handleClaimDbcSurplus_ends h).2
  | damm h =>
      unfold handleClaimDamm at h
      obtain ⟨ps, hps, h⟩ := bind_eq_ok.mp h
      obtain ⟨-, h⟩ := require_bind_eq_ok.mp h
      obtain ⟨-, h⟩ := require_bind_eq_ok.mp h
      obtain ⟨-, h⟩ := require_bind_eq_ok.mp h
      obtain ⟨hpaused, h⟩ := require_bind_eq_ok.mp h
      obtain ⟨-, -, h⟩ := bind_eq_ok.mp h
      obtain ⟨⟨s₁, baseAmount⟩, hb, h⟩ := bind_eq_ok.mp h
      obtain ⟨⟨s₂, quoteAmount⟩, hq, h⟩ := bind_eq_ok.mp h
      obtain ⟨⟨s₃, ev⟩, hsplit, h⟩ := bind_eq_ok.mp h
      cases h
      obtain ⟨rfl, treasury, rfl, hbase⟩ := receiveBase_ok hb
      exact ⟨ps, loadPool_ok hps, hpaused, treasury, s₂, _, hbase, hq, hsplit⟩

theorem ClaimEnds.effect {s s' : Router} {x : ClaimInput} {ps : PoolState} {evs : ClaimEvents}
    (hends : ClaimEnds s x ps s' evs) (hc : s.config.Splits) :
    ∃ h b p, ClaimEffect s x ps s' evs evs.claimed.baseAmount.toNat h b p := by
  obtain ⟨treasury, s₁, ts, hbase, hreceived, hsplit⟩ := hends.split
  obtain ⟨hquote, recv, rfl, hcredit⟩ := receiveQuote_ok hreceived
  rw [hquote] at hsplit
  obtain ⟨h, b, p, heff⟩ := split_ok (s := { s with treasury, quoteRecv := recv }) hc hsplit
  obtain ⟨ps', hpools, hcounts⟩ := heff.pools
  exact ⟨h, b, p, {
    pool := hends.pool
    key := heff.key
    config := heff.config
    received := hquote
    shares := heff.shares
    reports := heff.reports
    pools := ⟨ps', hpools, hcounts.claimed, hcounts.holders, hcounts.buyback, hcounts.protocol⟩
    quoteRecv := hcredit.cancel heff.quoteRecv
    holderVault := heff.holderVault
    buybackVault := heff.buybackVault
    treasury := ⟨treasury, hbase, heff.treasury⟩ }⟩

theorem Claims.effect {s s' : Router} {x : ClaimInput} {evs : ClaimEvents} (hc : s.config.Splits)
    (h : Claims s x (.ok (s', evs))) : ∃ ps base h b p, ClaimEffect s x ps s' evs base h b p := by
  obtain ⟨ps, hends⟩ := h.ends
  exact ⟨ps, _, hends.effect hc⟩

/-! ### How a split fails -/

/-- A pool's three totals make up what it claimed. -/
def PoolState.Balanced (ps : PoolState) : Prop :=
  ps.totalToHolders.toNat + ps.totalToBuyback.toNat + ps.totalToProtocol.toNat =
    ps.totalClaimed.toNat

theorem PoolState.Counts.balanced {ps ps' : PoolState} {amount h b p : Nat}
    (hcounts : ps.Counts ps' amount h b p) (hps : ps.Balanced) (hsum : h + b + p = amount) :
    ps'.Balanced := by
  have h1 := hcounts.claimed
  have h2 := hcounts.holders
  have h3 := hcounts.buyback
  have h4 := hcounts.protocol
  unfold PoolState.Balanced at hps ⊢
  omega

theorem transferFromRouter_bind_eq_error {router : Pubkey} {source dst : TokenAccount}
    {amount : UInt64} {β : Type} {f : TokenAccount × TokenAccount → RouterResult β}
    {e : RouterError}
    (h : (transferFromRouter router source dst amount >>= f) = .error (.custom e)) :
    ∃ a, f a = .error (.custom e) := by
  unfold transferFromRouter at h
  by_cases hamount : amount = 0
  · rw [if_pos hamount] at h
    exact ⟨_, h⟩
  · rw [if_neg hamount] at h
    obtain ⟨a, -, h⟩ := liftToken_bind_eq_error.mp h
    exact ⟨a, h⟩

/-- A counter that overflows, or the rest. -/
theorem checkedAdd_bind_eq_error {a b : UInt64} {e : RouterError} {β : Type}
    {f : UInt64 → RouterResult β} {e' : ProgramError RouterError}
    (h : (okOr (checkedAdd a b) e >>= f) = .error e') :
    2 ^ 64 ≤ a.toNat + b.toNat ∨ ∃ c, f c = .error e' := by
  rcases bind_eq_error.mp h with h | ⟨c, -, h⟩
  · left
    exact checkedAdd_eq_none.mp (okOr_eq_error.mp h).1
  · exact Or.inr ⟨c, h⟩

/-- The split's arithmetic fails only when the pool's total would leave `u64`. -/
theorem split_mathOverflow {s : Router} {pool : Pubkey} {ps : PoolState} {amount : UInt64}
    (hc : s.config.Splits) (hps : ps.Balanced)
    (h : split s pool ps amount = .error (.custom .mathOverflow)) :
    2 ^ 64 ≤ ps.totalClaimed.toNat + amount.toNat := by
  unfold split at h
  by_cases hamount : amount = 0
  · rw [if_pos hamount] at h
    cases h
  · rw [if_neg hamount] at h
    obtain ⟨holders, buyback, protocol, hsplit, hshares⟩ := exists_splitAmounts hc amount
    rw [hsplit] at h
    replace h := (bind_eq_error_of_ne (by intro h'; cases h')).mp h
    obtain ⟨⟨_, _, _⟩, hok, h⟩ := h
    cases okOr_eq_ok.mp hok
    obtain ⟨⟨source₁, _⟩, h⟩ := transferFromRouter_bind_eq_error h
    obtain ⟨⟨source₂, _⟩, h⟩ := transferFromRouter_bind_eq_error h
    obtain ⟨⟨source₃, _⟩, h⟩ := transferFromRouter_bind_eq_error h
    have hsum := hshares.sum
    unfold PoolState.Balanced at hps
    -- each total is at most the claimed one, and each share at most the amount
    rcases checkedAdd_bind_eq_error h with h | ⟨_, h⟩
    · exact h
    rcases checkedAdd_bind_eq_error h with h | ⟨_, h⟩
    · omega
    rcases checkedAdd_bind_eq_error h with h | ⟨_, h⟩
    · omega
    rcases checkedAdd_bind_eq_error h with h | ⟨_, h⟩
    · omega
    · cases h

theorem creditAccount_ne_custom {a : TokenAccount} {amount : UInt64} {e : RouterError} :
    creditAccount a amount ≠ .error (.custom e) := by
  unfold creditAccount
  split <;> simp

theorem receiveQuote_ne_custom {s : Router} {mint : Pubkey} {amount : UInt64} {e : RouterError} :
    receiveQuote s mint amount ≠ .error (.custom e) := by
  intro h
  unfold receiveQuote at h
  obtain ⟨_, -, h⟩ := (bind_eq_error_of_ne creditAccount_ne_custom).mp h
  cases h

theorem receiveBase_ne_custom {s : Router} {mint : Pubkey} {amount : UInt64} {e : RouterError} :
    receiveBase s mint amount ≠ .error (.custom e) := by
  intro h
  unfold receiveBase at h
  obtain ⟨_, -, h⟩ := (bind_eq_error_of_ne creditAccount_ne_custom).mp h
  cases h

theorem loadPool_ne_custom {s : Router} {pool : Pubkey} {e : RouterError} :
    loadPool s pool ≠ .error (.custom e) := liftAnchor_ne_custom

theorem checkClaimGate_ne_mathOverflow {c : RouterConfig} {caller : Pubkey} {ts now : Int} :
    checkClaimGate c caller ts now ≠ .error (.custom .mathOverflow) := by
  unfold checkClaimGate
  split_ifs
  · simp
  · intro h
    cases (require_eq_error.mp h).2

/-- The end every claim shares, when it fails. -/
theorem receiveQuote_split_mathOverflow {s : Router} {x : ClaimInput} {ps : PoolState} {ts : Int}
    {treasury : Pubkey → TokenAccount} {f : Router × UInt64 → Router × Option FeesSplit →
      RouterResult (Router × ClaimEvents)} (hf : ∀ r r', ∃ out, f r r' = .ok out)
    (hpool : s.pools x.pool = some ps) (hc : s.config.Splits)
    (hbal : ∀ key ps, s.pools key = some ps → ps.Balanced)
    (h : (receiveQuote { s with treasury } ps.quoteMint x.credit.quote >>= fun r =>
      split r.1 x.pool { ps with lastClaimTs := ts } r.2 >>= f r) =
        .error (.custom .mathOverflow)) :
    2 ^ 64 ≤ ps.totalClaimed.toNat + x.credit.quote.toNat := by
  obtain ⟨⟨s₁, seen⟩, hrecv, h⟩ := (bind_eq_error_of_ne receiveQuote_ne_custom).mp h
  obtain ⟨rfl, recv, rfl, -⟩ := receiveQuote_ok hrecv
  rcases bind_eq_error.mp h with h | ⟨r, -, h⟩
  · have hps : ps.Balanced := hbal _ _ hpool
    have hps' : PoolState.Balanced { ps with lastClaimTs := ts } := hps
    have hlt := split_mathOverflow (s := { s with treasury, quoteRecv := recv }) hc hps' h
    exact hlt
  · obtain ⟨out, hout⟩ := hf (_, x.credit.quote) r
    rw [hout] at h
    cases h

theorem Claims.mathOverflow {s : Router} {x : ClaimInput} (hc : s.config.Splits)
    (hbal : ∀ key ps, s.pools key = some ps → ps.Balanced)
    (h : Claims s x (.error (.custom .mathOverflow))) :
    ∃ ps, s.pools x.pool = some ps ∧ 2 ^ 64 ≤ ps.totalClaimed.toNat + x.credit.quote.toNat := by
  cases h with
  | dbc h =>
      unfold handleClaimDbc at h
      obtain ⟨ps, hps, h⟩ := (bind_eq_error_of_ne loadPool_ne_custom).mp h
      obtain ⟨-, h⟩ := (require_bind_eq_error (by simp)).mp h
      obtain ⟨-, -, h⟩ := (bind_eq_error_of_ne checkClaimGate_ne_mathOverflow).mp h
      obtain ⟨⟨s₁, baseAmount⟩, hb, h⟩ := (bind_eq_error_of_ne receiveBase_ne_custom).mp h
      obtain ⟨-, treasury, rfl, -⟩ := receiveBase_ok hb
      exact ⟨ps, loadPool_ok hps, receiveQuote_split_mathOverflow (fun _ _ => ⟨_, rfl⟩)
        (loadPool_ok hps) hc hbal h⟩
  | surplus h =>
      unfold handleClaimDbcSurplus at h
      obtain ⟨ps, hps, h⟩ := (bind_eq_error_of_ne loadPool_ne_custom).mp h
      obtain ⟨-, h⟩ := (require_bind_eq_error (by simp)).mp h
      obtain ⟨-, h⟩ := (require_bind_eq_error (by simp)).mp h
      exact ⟨ps, loadPool_ok hps, receiveQuote_split_mathOverflow (fun _ _ => ⟨_, rfl⟩)
        (loadPool_ok hps) hc hbal h⟩
  | damm h =>
      unfold handleClaimDamm at h
      obtain ⟨ps, hps, h⟩ := (bind_eq_error_of_ne loadPool_ne_custom).mp h
      obtain ⟨-, h⟩ := (require_bind_eq_error (by simp)).mp h
      obtain ⟨-, h⟩ := (require_bind_eq_error (by simp)).mp h
      obtain ⟨-, h⟩ := (require_bind_eq_error (by simp)).mp h
      obtain ⟨-, h⟩ := (require_bind_eq_error (by simp)).mp h
      obtain ⟨-, -, h⟩ := (bind_eq_error_of_ne checkClaimGate_ne_mathOverflow).mp h
      obtain ⟨⟨s₁, baseAmount⟩, hb, h⟩ := (bind_eq_error_of_ne receiveBase_ne_custom).mp h
      obtain ⟨-, treasury, rfl, -⟩ := receiveBase_ok hb
      exact ⟨ps, loadPool_ok hps, receiveQuote_split_mathOverflow (fun _ _ => ⟨_, rfl⟩)
        (loadPool_ok hps) hc hbal h⟩

end IceMarkets.FeeRouter
