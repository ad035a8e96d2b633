import IceMarkets.PegDesk.Program

/-!
# IceMarkets.PegDesk.Admission

What holds of every trade the program accepts, in any reachable state: the pause and the
market status, the reading's sign, age, confidence and order, the caps and the reserve
ratio; and of an index, what holds of each of its legs.

A leg's terms can change after the index was configured, and `read_leg` checks them
again, except the quote scale of a leg that is not `PythPull`. That one is excluded by
an invariant of the program: only a `PythPull` commodity is quoted in EUR
(`EurIsPyth`). The i-th leg is read from the accounts 2i and 2i + 1; where a keeper's post
prices it, that is the post the program keeps for the leg (`Program.Named`).
-/

namespace IceMarkets.PegDesk

open Lts

/-! ### Legs -/

section Legs

variable {env : Env} {key : Pubkey} {now : Int}

/-- A commodity that a keeper's post prices. -/
def Commodity.Posted (c : Commodity) : Prop :=
  c.oracleKind = OracleKind.keeperSigned.toU8 ∨ c.oracleKind = OracleKind.switchboard.toU8

/-- What a keeper posted. -/
def KeeperPrice.reading (kp : KeeperPrice) : OraclePrice where
  price := kp.price
  conf := kp.conf
  publishTime := kp.publishTime

/-- A reading is what an account of the program says was posted for a commodity. -/
def PostRead (env : Env) (key : Pubkey) (info : AccountInfo) (r : OraclePrice) : Prop :=
  ∃ kp, info.owner = env.programId ∧ info.data = .keeperPrice kp ∧ kp.commodity = key ∧
    r = kp.reading

theorem readKeeperPrice_ok {info : AccountInfo} {r : OraclePrice}
    (h : readKeeperPrice env info key = .ok r) : PostRead env key info r := by
  obtain ⟨kp, hload, h⟩ := bind_eq_ok.mp h
  cases h
  obtain ⟨howner, hload⟩ := require_bind_eq_ok.mp hload
  obtain ⟨kp', hdata, hload⟩ := okOr_bind_eq_ok.mp hload
  obtain ⟨hkey, hload⟩ := require_bind_eq_ok.mp hload
  cases hload
  refine ⟨kp, howner, ?_, hkey, rfl⟩
  cases hd : info.data with
  | keeperPrice kp' =>
      rw [hd] at hdata
      rw [Option.some.inj hdata]
  | priceUpdate u => rw [hd] at hdata; cases hdata
  | commodity c => rw [hd] at hdata; cases hdata
  | other => rw [hd] at hdata; cases hdata

/-- What an accepted leg reading checked. -/
structure LegChecked (env : Env) (leg : Commodity) (legKey : Pubkey) (source : AccountInfo)
    (now : Int) (r : OraclePrice) : Prop where
  not_halted : leg.status ≠ statusHalted
  not_composite : leg.oracleKind ≠ OracleKind.composite.toU8
  eur : leg.quoteScale = quoteEur → leg.oracleKind ≠ OracleKind.pythPull.toU8
  posted : leg.Posted → PostRead env legKey source r
  price_pos : 0 < r.price.toNat
  age : (ageSecs now r.publishTime).toNat ≤ leg.maxAge.toNat

theorem readLeg_ok {leg : Commodity} {legKey : Pubkey} {source : AccountInfo} {r : OraclePrice}
    (h : readLeg env leg legKey source now = .ok r) : LegChecked env leg legKey source now r := by
  unfold readLeg at h
  obtain ⟨hstatus, h⟩ := require_bind_eq_ok.mp h
  obtain ⟨kind, hkind, h⟩ := okOr_bind_eq_ok.mp h
  obtain ⟨out, hout, h⟩ := bind_eq_ok.mp h
  obtain ⟨hage, h⟩ := require_bind_eq_ok.mp h
  obtain ⟨hpos, h⟩ := require_bind_eq_ok.mp h
  cases h
  -- the kind's branch is the one its byte names
  have hkind_eq : ∀ k : OracleKind, leg.oracleKind = k.toU8 → kind = k := by
    intro k hk
    exact Option.some.inj (hkind.symm.trans (OracleKind.fromU8_eq_some.mpr hk))
  refine ⟨hstatus, ?_, ?_, ?_, UInt64.lt_iff_toNat_lt.mp hpos, hage⟩
  · intro hcomposite
    obtain rfl := hkind_eq .composite hcomposite
    cases hout
  · intro heur hpyth
    obtain rfl := hkind_eq .pythPull hpyth
    exact (require_bind_eq_ok.mp hout).1 heur
  · intro hposted
    rcases hposted with hkeeper | hswitchboard
    · obtain rfl := hkind_eq .keeperSigned hkeeper
      exact readKeeperPrice_ok hout
    · obtain rfl := hkind_eq .switchboard hswitchboard
      exact readKeeperPrice_ok (require_bind_eq_ok.mp hout).2

/-- The leg at a place was read from its own account and the price source beside it. -/
structure LegRead (env : Env) (now : Int) (infos : List AccountInfo) (i : Nat) (leg : IndexLeg)
    (r : OraclePrice × UInt16) : Prop where
  weight : r.2 = leg.weightBps
  read : ∃ info source legC, infos[2 * i]? = some info ∧ infos[2 * i + 1]? = some source ∧
    info.key = leg.commodity ∧ info.owner = env.programId ∧ info.data = .commodity legC ∧
    readLeg env legC leg.commodity source now = .ok r.1

/-- One reading for each leg, in order. -/
structure LegsRead (env : Env) (now : Int) (infos : List AccountInfo) (legs : List IndexLeg)
    (readings : List (OraclePrice × UInt16)) : Prop where
  length : readings.length = legs.length
  leg : ∀ i leg, legs[i]? = some leg →
    ∃ r, readings[i]? = some r ∧ LegRead env now infos i leg r

theorem loadCommodity_ok {info : AccountInfo} {c : Commodity} (h : loadCommodity env info = .ok c) :
    info.owner = env.programId ∧ info.data = .commodity c := by
  unfold loadCommodity at h
  obtain ⟨howner, h⟩ := require_bind_eq_ok.mp h
  refine ⟨howner, ?_⟩
  have hdata := okOr_eq_ok.mp h
  cases hd : info.data with
  | commodity c' =>
      rw [hd] at hdata
      rw [Option.some.inj hdata]
  | priceUpdate u => rw [hd] at hdata; cases hdata
  | keeperPrice kp => rw [hd] at hdata; cases hdata
  | other => rw [hd] at hdata; cases hdata

/-- Two accounts and a reading more, before the others. -/
theorem LegsRead.cons {legs : List IndexLeg} {infos : List AccountInfo}
    {ps : List (OraclePrice × UInt16)} {leg : IndexLeg} {info source : AccountInfo}
    {p : OraclePrice × UInt16} (h : LegsRead env now infos legs ps)
    (hleg : LegRead env now (info :: source :: infos) 0 leg p) :
    LegsRead env now (info :: source :: infos) (leg :: legs) (p :: ps) := by
  refine ⟨by simp [h.length], ?_⟩
  intro i leg' hi
  cases i with
  | zero =>
      cases hi
      exact ⟨p, rfl, hleg⟩
  | succ i =>
      obtain ⟨r, hr, hweight, info', source', legC, hinfo, hsource, hread⟩ := h.leg i leg' hi
      exact ⟨r, hr, hweight, info', source', legC, hinfo, hsource, hread⟩

theorem readLegs_ok {legs : List IndexLeg} {infos : List AccountInfo}
    {ps : List (OraclePrice × UInt16)} (h : readLegs env key now legs infos = .ok ps) :
    LegsRead env now infos legs ps := by
  induction legs, infos using readLegs.induct generalizing ps with
  | case1 infos =>
      cases h
      refine ⟨rfl, ?_⟩
      intro i leg hi
      simp at hi
  | case2 leg legs legInfo source rest ih =>
      unfold readLegs at h
      obtain ⟨hkey, h⟩ := require_bind_eq_ok.mp h
      obtain ⟨-, h⟩ := require_bind_eq_ok.mp h
      obtain ⟨legC, hload, h⟩ := bind_eq_ok.mp h
      obtain ⟨p, hp, h⟩ := bind_eq_ok.mp h
      obtain ⟨ps', hps, h⟩ := bind_eq_ok.mp h
      cases h
      obtain ⟨howner, hdata⟩ := loadCommodity_ok hload
      rw [hkey] at hp
      exact (ih hps).cons ⟨rfl, legInfo, source, legC, rfl, rfl, hkey, howner, hdata, hp⟩
  | case3 leg legs infos hne =>
      rw [readLegs.eq_3 _ _ _ _ _ _ hne] at h
      cases h

end Legs

/-! ### Index readings -/

/-- What a reading of an index says of its legs: each was read from its own accounts, and the
reading lies between theirs, as old as the oldest. Publish times are `i64`s. -/
structure CompositeRead (env : Env) (c : Commodity) (now : Int) (infos : List AccountInfo)
    (op : OraclePrice) (readings : List (OraclePrice × UInt16)) : Prop where
  legs : LegsRead env now infos c.activeLegs readings
  ge_min : ∃ r ∈ readings, r.1.price.toNat ≤ op.price.toNat
  le_max : ∃ r ∈ readings, op.price.toNat ≤ r.1.price.toNat
  oldest_le : ∀ r ∈ readings, op.publishTime ≤ r.1.publishTime
  oldest_mem : (∀ r ∈ readings, r.1.publishTime ≤ i64Max) →
    ∃ r ∈ readings, r.1.publishTime = op.publishTime

section Composite

variable {env : Env} {c : Commodity} {key : Pubkey} {now : Int}

/-- Some value of a non-empty list is at most every other, and some at least. -/
theorem exists_extremes {ps : List (OraclePrice × UInt16)} (h : ps ≠ []) :
    ∃ lo ∈ ps, ∃ hi ∈ ps, ∀ p ∈ ps,
      lo.1.price.toNat ≤ p.1.price.toNat ∧ p.1.price.toNat ≤ hi.1.price.toNat := by
  induction ps with
  | nil => exact absurd rfl h
  | cons p ps ih =>
      by_cases hps : ps = []
      · subst hps
        exact ⟨p, by simp, p, by simp, by simp⟩
      · obtain ⟨lo, hlo, hi, hhi, hall⟩ := ih hps
        refine ⟨if p.1.price.toNat ≤ lo.1.price.toNat then p else lo, by split_ifs <;> simp [hlo],
          if hi.1.price.toNat ≤ p.1.price.toNat then p else hi, by split_ifs <;> simp [hhi], ?_⟩
        intro p' hp'
        rcases List.mem_cons.mp hp' with rfl | hp'
        · constructor <;> split_ifs <;> omega
        · have hp := hall p' hp'
          constructor <;> split_ifs <;> omega

theorem foldl_min_le (l : List Int) (b : Int) : l.foldl min b ≤ b ∧ ∀ t ∈ l, l.foldl min b ≤ t := by
  induction l generalizing b with
  | nil => simp
  | cons t l ih =>
      obtain ⟨hb, hl⟩ := ih (min b t)
      refine ⟨hb.trans (min_le_left b t), ?_⟩
      intro t' ht'
      rcases List.mem_cons.mp ht' with rfl | ht'
      · exact hb.trans (min_le_right b t')
      · exact hl t' ht'

/-- A minimum is its bound or one of the values. -/
theorem foldl_min_mem (l : List Int) (b : Int) : l.foldl min b = b ∨ l.foldl min b ∈ l := by
  induction l generalizing b with
  | nil => simp
  | cons t l ih =>
      rw [List.foldl_cons]
      rcases ih (min b t) with h | h
      · rw [h]
        rcases min_choice b t with h' | h'
        · exact Or.inl h'
        · rw [h']
          exact Or.inr List.mem_cons_self
      · exact Or.inr (List.mem_cons_of_mem _ h)

theorem readComposite_ok {remaining : List AccountInfo} {op : OraclePrice}
    (h : readComposite env c key remaining now = .ok op) :
    ∃ readings, CompositeRead env c now remaining op readings := by
  unfold readComposite at h
  obtain ⟨hne, h⟩ := require_bind_eq_ok.mp h
  obtain ⟨-, h⟩ := require_bind_eq_ok.mp h
  obtain ⟨ps, hps, h⟩ := bind_eq_ok.mp h
  obtain ⟨price, hprice, h⟩ := okOr_bind_eq_ok.mp h
  obtain ⟨conf, -, h⟩ := okOr_bind_eq_ok.mp h
  cases h
  have hlegs := readLegs_ok hps
  have hnil : ps ≠ [] := by
    intro hx
    obtain rfl := hx
    have hlen := hlegs.length
    rw [List.length_nil] at hlen
    omega
  obtain ⟨lo, hlo, hi, hhi, hall⟩ := exists_extremes hnil
  have hbetween := @weightedSum_between _ _ hprice lo.1.price.toNat hi.1.price.toNat (by
    intro l hl
    obtain ⟨p, hp, rfl⟩ := List.mem_map.mp hl
    exact hall p hp)
  obtain ⟨-, hle⟩ := foldl_min_le (ps.map fun p => p.1.publishTime) i64Max
  refine ⟨ps, hlegs, ⟨lo, hlo, hbetween.1⟩, ⟨hi, hhi, hbetween.2⟩,
    fun r hr => hle _ (List.mem_map.mpr ⟨r, hr, rfl⟩), ?_⟩
  intro hrange
  rcases foldl_min_mem (ps.map fun p => p.1.publishTime) i64Max with hmax | hmem
  · -- then every leg is at the bound
    have h1 := hle _ (List.mem_map.mpr ⟨lo, hlo, rfl⟩)
    have h2 := hrange lo hlo
    exact ⟨lo, hlo, by dsimp only; omega⟩
  · obtain ⟨r, hr, heq⟩ := List.mem_map.mp hmem
    exact ⟨r, hr, heq⟩

/-- The reading of an index is its composite reading. -/
theorem readPrice_composite {accts : OracleAccounts} {op : OraclePrice}
    (h : readPrice env c key accts now = .ok op)
    (hkind : c.oracleKind = OracleKind.composite.toU8) :
    readComposite env c key accts.remaining now = .ok op := by
  unfold readPrice at h
  obtain ⟨kind, hk, h⟩ := okOr_bind_eq_ok.mp h
  obtain rfl := Option.some.inj (hk.symm.trans (OracleKind.fromU8_eq_some.mpr hkind))
  obtain ⟨out, hout, h⟩ := bind_eq_ok.mp h
  obtain ⟨-, h⟩ := require_bind_eq_ok.mp h
  obtain ⟨-, h⟩ := require_bind_eq_ok.mp h
  cases h
  exact hout

/-- The reading of a commodity that a post prices is the post. -/
theorem readPrice_posted {accts : OracleAccounts} {op : OraclePrice}
    (h : readPrice env c key accts now = .ok op) (hposted : c.Posted) :
    ∃ info ∈ accts.infos, PostRead env key info op := by
  unfold readPrice at h
  obtain ⟨kind, hk, h⟩ := okOr_bind_eq_ok.mp h
  obtain ⟨out, hout, h⟩ := bind_eq_ok.mp h
  obtain ⟨-, h⟩ := require_bind_eq_ok.mp h
  obtain ⟨-, h⟩ := require_bind_eq_ok.mp h
  cases h
  unfold OracleAccounts.infos
  rcases hposted with hkeeper | hswitchboard
  · obtain rfl := Option.some.inj (hk.symm.trans (OracleKind.fromU8_eq_some.mpr hkeeper))
    obtain ⟨info, hinfo, hout⟩ := okOr_bind_eq_ok.mp hout
    exact ⟨info, by simp [hinfo], readKeeperPrice_ok hout⟩
  · obtain rfl := Option.some.inj (hk.symm.trans (OracleKind.fromU8_eq_some.mpr hswitchboard))
    obtain ⟨info, hinfo, hout⟩ := okOr_bind_eq_ok.mp hout
    exact ⟨info, by simp [hinfo], readKeeperPrice_ok (require_bind_eq_ok.mp hout).2⟩

end Composite

/-! ### The program's commodities -/

/-- Only a `PythPull` commodity is quoted in EUR: the others have no slot for a rate. -/
def EurIsPyth (c : Commodity) : Prop :=
  c.quoteScale = quoteEur → c.oracleKind = OracleKind.pythPull.toU8

/-- What no change of terms touches, and the scales it may set. -/
structure Reconfigured (c c' : Commodity) : Prop where
  lastPublishTime : c'.lastPublishTime = c.lastPublishTime
  oracleKind : c'.oracleKind = c.oracleKind
  quoteScale : c'.quoteScale = c.quoteScale ∨ EurIsPyth c'

section Terms

variable {env : Env} {s s' : Program} {e : Signed} {key : Pubkey}

theorem handleSetCommodityParams_ok {config : GlobalConfig} {authority : Pubkey} {c c' : Commodity}
    {args : SetParamsArgs} (h : handleSetCommodityParams config authority c args = .ok c') :
    Reconfigured c c' := by
  unfold handleSetCommodityParams at h
  obtain ⟨-, -, h⟩ := bind_eq_ok.mp h
  obtain ⟨-, h⟩ := require_bind_eq_ok.mp h
  obtain ⟨-, h⟩ := require_bind_eq_ok.mp h
  obtain ⟨heur, h⟩ := require_bind_eq_ok.mp h
  obtain ⟨-, h⟩ := require_bind_eq_ok.mp h
  obtain ⟨-, -, h⟩ := bind_eq_ok.mp h
  cases h
  refine ⟨rfl, rfl, ?_⟩
  cases hscale : args.quoteScale with
  | none => exact Or.inl rfl
  | some v =>
      right
      intro hv
      exact heur v (by rw [hscale]; rfl) hv

theorem Reconfigures.reconfigured {signer : Pubkey} {c c' : Commodity}
    (h : Reconfigures env s signer key c c') : Reconfigured c c' := by
  cases h with
  | setCommodityParams h => exact handleSetCommodityParams_ok h
  | setFeedAccount h =>
      obtain ⟨-, -, h⟩ := bind_eq_ok.mp h
      cases h
      exact ⟨rfl, rfl, Or.inl rfl⟩
  | clearPriceAnchor h =>
      obtain ⟨-, -, h⟩ := bind_eq_ok.mp h
      cases h
      exact ⟨rfl, rfl, Or.inl rfl⟩
  | setStatus h =>
      obtain ⟨-, -, h⟩ := bind_eq_ok.mp h
      obtain ⟨-, h⟩ := require_bind_eq_ok.mp h
      obtain ⟨-, h⟩ := require_bind_eq_ok.mp h
      obtain ⟨-, h⟩ := require_bind_eq_ok.mp h
      cases h
      exact ⟨rfl, rfl, Or.inl rfl⟩
  | setIndexLegs _ h =>
      obtain ⟨-, -, h⟩ := bind_eq_ok.mp h
      obtain ⟨-, h⟩ := require_bind_eq_ok.mp h
      obtain ⟨-, h⟩ := require_bind_eq_ok.mp h
      obtain ⟨-, h⟩ := require_bind_eq_ok.mp h
      obtain ⟨_, -, h⟩ := bind_eq_ok.mp h
      obtain ⟨-, h⟩ := require_bind_eq_ok.mp h
      cases h
      exact ⟨rfl, rfl, Or.inl rfl⟩

theorem handleCreateCommodity_ok {config : GlobalConfig} {admin reserveMint coinMint vault : Pubkey}
    {args : CreateCommodityArgs} {c : Commodity}
    (h : handleCreateCommodity config admin reserveMint coinMint vault args = .ok c) :
    EurIsPyth c := by
  unfold handleCreateCommodity at h
  obtain ⟨-, h⟩ := require_bind_eq_ok.mp h
  obtain ⟨-, h⟩ := require_bind_eq_ok.mp h
  obtain ⟨-, h⟩ := require_bind_eq_ok.mp h
  obtain ⟨kind, hkind, h⟩ := okOr_bind_eq_ok.mp h
  obtain ⟨-, h⟩ := require_bind_eq_ok.mp h
  obtain ⟨-, h⟩ := require_bind_eq_ok.mp h
  obtain ⟨heur, h⟩ := require_bind_eq_ok.mp h
  obtain ⟨-, -, h⟩ := bind_eq_ok.mp h
  obtain ⟨-, h⟩ := require_bind_eq_ok.mp h
  obtain ⟨-, h⟩ := require_bind_eq_ok.mp h
  cases h
  intro hscale
  have hbyte := OracleKind.fromU8_eq_some.mp hkind
  rw [heur hscale] at hbyte
  exact hbyte

/-- A trade's quote, its two sides and the marks it leaves. -/
theorem Trades.inv {d : Desk} {x : TradeInput} {out : TradeOutcome} (h : Trades env d x out) :
    ∃ q, (Bought env d x q out ∨ Sold env d x q out) ∧ TradeMarks d q out.desk := by
  cases h with
  | buy h =>
      obtain ⟨q, a, coinOut, h, -⟩ := handleBuy_ok h
      exact ⟨q, Or.inl h.bought, h.bought.effect.marks⟩
  | buyExactOut h =>
      obtain ⟨q, a, usdcIn, h, -⟩ := handleBuyExactOut_ok h
      exact ⟨q, Or.inl h.bought, h.bought.effect.marks⟩
  | sell h =>
      obtain ⟨q, b, usdcOut, h, -⟩ := handleSell_ok h
      exact ⟨q, Or.inr h.sold, h.sold.effect.marks⟩

theorem Trades.quoted {d : Desk} {x : TradeInput} {out : TradeOutcome} (h : Trades env d x out) :
    ∃ isBuy q, Quoted env d x isBuy q ∧ TradeMarks d q out.desk := by
  obtain ⟨q, hbought | hsold, hmarks⟩ := h.inv
  · exact ⟨true, q, hbought.quoted, hmarks⟩
  · exact ⟨false, q, hsold.quoted, hmarks⟩

/-- No step lets a commodity's last publish time go back. -/
theorem MarketStep.lastPublishTime_le {m m' : Market} (h : MarketStep env s s' key (some m) m') :
    m.commodity.lastPublishTime ≤ m'.commodity.lastPublishTime := by
  cases h with
  | keep => exact le_refl _
  | trade h =>
      obtain ⟨isBuy, q, hquoted, hmarks⟩ := h.quoted
      have hmono := hquoted.monotonic
      rw [← hmarks.lastPublishTime] at hmono
      exact hmono
  | cache h => rw [h]
  | reconfigure h => exact (h.reconfigured.lastPublishTime).ge

/-- Every step keeps EUR for `PythPull` commodities. -/
theorem MarketStep.eurIsPyth {o : Option Market} {m' : Market} (h : MarketStep env s s' key o m')
    (ho : ∀ m, o = some m → EurIsPyth m.commodity) : EurIsPyth m'.commodity := by
  cases h with
  | keep => exact ho _ rfl
  | trade h =>
      obtain ⟨isBuy, q, -, hmarks⟩ := h.quoted
      intro hscale
      have hkind := ho _ rfl (hmarks.terms.quoteScale.symm.trans hscale)
      exact hmarks.terms.oracleKind.trans hkind
  | cache h =>
      have hm := ho _ rfl
      rw [h]
      exact hm
  | reconfigure h =>
      have hm := ho _ rfl
      rcases h.reconfigured.quoteScale with hscale | heur
      · intro hv
        have hkind := h.reconfigured.oracleKind
        dsimp only at hv ⊢
        rw [hscale] at hv
        rw [hkind]
        exact hm hv
      · exact heur
  | create h => exact handleCreateCommodity_ok h

/-- Commodities are never closed. -/
theorem ProgramStep.market_mono (h : ProgramStep env s e s') {m : Market}
    (hm : s.markets key = some m) : ∃ m', s'.markets key = some m' := by
  have hput : ∀ key' m₁, ∃ m', (s.put key' m₁).markets key = some m' := by
    intro key' m₁
    by_cases hkey : key = key'
    · subst hkey
      exact ⟨m₁, s.put_markets_self key m₁⟩
    · exact ⟨m, (s.put_markets_ne hkey m₁).trans hm⟩
  cases h with
  | configure _ => exact ⟨m, hm⟩
  | _ => exact hput _ _

theorem claimKeeperPrice_commodity {kp kp' : KeeperPrice}
    (h : claimKeeperPrice kp key = .ok kp') : kp'.commodity = key := by
  unfold claimKeeperPrice at h
  split at h
  · cases h
    rfl
  · obtain ⟨hnamed, h⟩ := require_bind_eq_ok.mp h
    cases h
    exact hnamed

/-- A post names its commodity. -/
theorem handleKeeperUpdatePrice_commodity {config : GlobalConfig} {account : Option KeeperPrice}
    {oracleKind : UInt8} {x : Post} {kp : KeeperPrice} {ev : PriceUpdated}
    (h : handleKeeperUpdatePrice config key oracleKind account x = .ok (kp, ev)) :
    kp.commodity = key := by
  obtain ⟨kp₁, kp₂, hclaim, -, -, -, heq, hkp₂⟩ :=
    KeeperStep.inv ⟨config, oracleKind, kp, ev, h, rfl⟩
  cases heq
  subst hkp₂
  have hkey := claimKeeperPrice_commodity hclaim
  exact hkey

/-- Every post the program keeps names its commodity. -/
def Program.Named (s : Program) : Prop :=
  ∀ key m kp, s.markets key = some m → m.keeperPrice = some kp → kp.commodity = key

theorem Program.Named.put {m : Market} (h : s.Named)
    (hkp : ∀ kp, m.keeperPrice = some kp → kp.commodity = key) : (s.put key m).Named := by
  intro key' m' kp hm' hkp'
  by_cases hkey : key' = key
  · subst hkey
    rw [s.put_markets_self] at hm'
    cases hm'
    exact hkp kp hkp'
  · rw [s.put_markets_ne hkey] at hm'
    exact h key' m' kp hm' hkp'

theorem ProgramStep.named (h : ProgramStep env s e s') (hnamed : s.Named) : s'.Named := by
  cases h with
  | trade hm _ _ => exact hnamed.put fun kp hkp => hnamed _ _ kp hm hkp
  | depositReserve hm _ => exact hnamed.put fun kp hkp => hnamed _ _ kp hm hkp
  | sweepSpreadFees hm _ => exact hnamed.put fun kp hkp => hnamed _ _ kp hm hkp
  | keeperUpdatePrice hm h =>
      refine hnamed.put fun kp hkp => ?_
      cases hkp
      exact handleKeeperUpdatePrice_commodity h
  | setKeeperBounds hm hkp h =>
      refine hnamed.put fun kp' hkp' => ?_
      cases hkp'
      obtain ⟨-, h⟩ := require_bind_eq_ok.mp h
      obtain ⟨-, h⟩ := require_bind_eq_ok.mp h
      obtain ⟨-, h⟩ := require_bind_eq_ok.mp h
      cases h
      have hkey := hnamed _ _ _ hm hkp
      exact hkey
  | createCommodity _ _ => exact hnamed.put nofun
  | configure _ => exact hnamed
  | reconfigure hm _ => exact hnamed.put fun kp hkp => hnamed _ _ kp hm hkp
  | move hm _ _ => exact hnamed.put fun kp hkp => hnamed _ _ kp hm hkp

end Terms

/-! ### Runs -/

section Runs

variable {env : Env} {s s' : Program} {tr : List Signed} {key : Pubkey}

/-- No commodity's last publish time goes back. -/
def LaterMarks (s s' : Program) : Prop :=
  ∀ key m, s.markets key = some m →
    ∃ m', s'.markets key = some m' ∧ m.commodity.lastPublishTime ≤ m'.commodity.lastPublishTime

theorem ProgramStep.laterMarks {e : Signed} (h : ProgramStep env s e s') : LaterMarks s s' := by
  intro key m hm
  obtain ⟨m', hm'⟩ := h.market_mono hm
  refine ⟨m', hm', ?_⟩
  have hstep := h.market hm'
  rw [hm] at hstep
  exact hstep.lastPublishTime_le

theorem ProgramRun.laterMarks (h : ProgramRun env s tr s') : LaterMarks s s' := by
  refine h.rel (P := fun _ => True) (fun s key m hm => ⟨m, hm, le_refl _⟩) ?_
    (fun _ _ _ _ hstep => hstep.laterMarks) (fun _ _ => trivial)
  intro s t u hst htu key m hm
  obtain ⟨m', hm', hle⟩ := hst key m hm
  obtain ⟨m'', hm'', hle'⟩ := htu key m' hm'
  exact ⟨m'', hm'', hle.trans hle'⟩

/-- Every commodity of the program satisfies `EurIsPyth`. -/
def Program.EurIsPyth (s : Program) : Prop :=
  ∀ key m, s.markets key = some m → PegDesk.EurIsPyth m.commodity

theorem ProgramRun.eurIsPyth (h : ProgramRun env s tr s') (hfresh : s.Fresh) : s'.EurIsPyth := by
  refine h.invariant (I := Program.EurIsPyth) ?_ ?_
  · intro s e t hstep hinv key m hm
    exact (hstep.market hm).eurIsPyth (hinv key)
  · intro key m hm
    rw [hfresh key] at hm
    cases hm

theorem ProgramRun.named (h : ProgramRun env s tr s') (hfresh : s.Fresh) : s'.Named := by
  refine h.invariant (I := Program.Named) (fun s e t hstep hinv => hstep.named hinv) ?_
  intro key m kp hm
  rw [hfresh key] at hm
  cases hm

end Runs

/-! ### Admission -/

/-- The leg of an index at a place as the program has it, and the reading taken of it: of the
price source passed after the leg's account, or of what a keeper posted for the leg. -/
structure LegAdmitted (env : Env) (s : Program) (x : TradeInput) (i : Nat) (leg : IndexLeg)
    (r : OraclePrice × UInt16) (m : Market) : Prop where
  market : s.markets leg.commodity = some m
  weight : r.2 = leg.weightBps
  account : ∃ info, x.oracle.remaining[2 * i]? = some info ∧ info.key = leg.commodity ∧
    info.owner = env.programId ∧ info.data = .commodity m.commodity
  reading : ∃ source, x.oracle.remaining[2 * i + 1]? = some source ∧
    readLeg env m.commodity leg.commodity source x.now = .ok r.1
  posted : m.commodity.Posted → ∃ kp, m.keeperPrice = some kp ∧ r.1 = kp.reading
  not_halted : m.commodity.status ≠ statusHalted
  not_composite : m.commodity.oracleKind ≠ OracleKind.composite.toU8
  not_eur : m.commodity.quoteScale ≠ quoteEur
  age : x.now - r.1.publishTime ≤ m.commodity.maxAge.toNat

/-- What holds of a trade that the program accepts, on the accounts it found and leaves. -/
structure Admitted (env : Env) (s : Program) (key : Pubkey) (x : TradeInput) (t : Trade)
    (m : Market) (op : OraclePrice) (m' : Market) : Prop where
  market : s.markets key = some m
  reading : readPrice env m.commodity key x.oracle x.now = .ok op
  posted : m.commodity.Posted → ∃ kp, m.keeperPrice = some kp ∧ op = kp.reading
  price : t.price = op.price
  not_paused : s.config.globalPause = false
  buy_status : t.side = .buy → m.commodity.status = statusOpen
  sell_status : t.side = .sell → m.commodity.status = statusOpen ∨ m.commodity.status = statusClosed
  price_pos : 0 < op.price.toNat
  age : x.now - op.publishTime ≤ m.commodity.maxAge.toNat
  conf : op.conf.toNat * bps ≤ s.config.maxConfBps.toNat * op.price.toNat
  monotonic : m.commodity.lastPublishTime ≤ op.publishTime
  recorded : m'.commodity.lastPublishTime = op.publishTime
  per_tx : t.coin.toNat ≤ m.commodity.perTxCap.toNat
  supply_cap : t.side = .buy → m'.coinMint.supply.toNat ≤ m.commodity.supplyCap.toNat
  ratio : t.side = .buy →
    s.config.reserveHaltBps.toNat * (m'.coinMint.supply.toNat * op.price.toNat) ≤
      m'.reserveVault.amount.toNat * (bps * priceScale)
  legs : m.commodity.oracleKind = OracleKind.composite.toU8 →
    ∃ readings, CompositeRead env m.commodity x.now x.oracle.remaining op readings ∧
      ∀ i leg, m.commodity.activeLegs[i]? = some leg →
        ∃ r legM, readings[i]? = some r ∧ LegAdmitted env s x i leg r legM

section Admission

variable {env : Env} {s s' : Program} {key : Pubkey}

/-- What is read of a post is what the program keeps for the commodity. -/
theorem PostRead.kept {info : AccountInfo} {r : OraclePrice} {m : Market}
    (h : PostRead env key info r) (hacc : s.Holds env info) (hnamed : s.Named)
    (hm : s.markets key = some m) : ∃ kp, m.keeperPrice = some kp ∧ r = kp.reading := by
  obtain ⟨kp, howner, hdata, hkey, hr⟩ := h
  obtain ⟨key', m', hm', hkp⟩ := hacc.keeperPrice howner kp hdata
  obtain rfl := (hnamed key' m' kp hm' hkp).symm.trans hkey
  cases hm'.symm.trans hm
  exact ⟨kp, hkp, hr⟩

/-- A leg account the program owns is the leg's commodity. -/
theorem LegRead.admitted {x : TradeInput} {i : Nat} {leg : IndexLeg} {r : OraclePrice × UInt16}
    (h : LegRead env x.now x.oracle.remaining i leg r)
    (hacc : s.Genuine env x.oracle.remaining) (heur : s.EurIsPyth) (hnamed : s.Named) :
    ∃ m, LegAdmitted env s x i leg r m := by
  obtain ⟨info, source, legC, hinfo, hsource, hkey, howner, hdata, hread⟩ := h.read
  obtain ⟨m, hm, rfl⟩ := (hacc info (List.mem_of_getElem? hinfo)).commodity howner legC hdata
  have hchecked := readLeg_ok hread
  rw [hkey] at hm
  refine ⟨m, ?_⟩
  exact {
    market := hm
    weight := h.weight
    account := ⟨info, hinfo, hkey, howner, hdata⟩
    reading := ⟨source, hsource, hread⟩
    posted := fun hposted => (hchecked.posted hposted).kept
      (hacc source (List.mem_of_getElem? hsource)) hnamed hm
    not_halted := hchecked.not_halted
    not_composite := hchecked.not_composite
    not_eur := by
      -- the reading excludes EUR for `PythPull`, the invariant for the other kinds
      intro hscale
      exact hchecked.eur hscale (heur leg.commodity m hm hscale)
    age := sub_le_of_ageSecs_le hchecked.age }

/-- What a quote alone says of the trade. -/
theorem Quoted.admitted {m : Market} {x : TradeInput} {isBuy : Bool} {q : Quote} {t : Trade}
    {d' : Desk} (h : Quoted env (s.desk key m) x isBuy q) (hm : s.markets key = some m)
    (hacc : s.Genuine env x.oracle.infos) (heur : s.EurIsPyth) (hnamed : s.Named)
    (hmarks : TradeMarks (s.desk key m) q d') (hprice : t.price = q.price)
    (hside : isBuy = true ↔ t.side = .buy) (hper : t.coin.toNat ≤ m.commodity.perTxCap.toNat)
    (hcap : t.side = .buy → d'.coinMint.supply.toNat ≤ m.commodity.supplyCap.toNat)
    (hratio : t.side = .buy →
      s.config.reserveHaltBps.toNat * (d'.coinMint.supply.toNat * q.price.toNat) ≤
        d'.reserveVault.amount.toNat * (bps * priceScale)) :
    ∃ op, Admitted env s key x t m op (m.withDesk d') := by
  obtain ⟨op, hop, hopprice, hoptime, cbps, hcbps, hle⟩ := h.reading
  obtain ⟨hpos, hage⟩ := readPrice_ok hop
  have hstatus := h.status
  refine ⟨op, ?_⟩
  exact {
    market := hm
    reading := hop
    posted := by
      intro hposted
      obtain ⟨info, hinfo, hread⟩ := readPrice_posted hop hposted
      exact hread.kept (hacc info hinfo) hnamed hm
    price := hprice.trans hopprice.symm
    not_paused := h.not_paused
    buy_status := by
      intro hbuy
      rcases hstatus with hopen | ⟨-, hsell⟩
      · exact hopen
      · rw [hside.mpr hbuy] at hsell
        cases hsell
    sell_status := by
      intro _
      exact hstatus.imp_right And.left
    price_pos := hpos
    age := sub_le_of_ageSecs_le hage
    conf := confBps_le hcbps hle
    monotonic := h.monotonic.trans hoptime.ge
    recorded := hmarks.lastPublishTime.trans hoptime.symm
    per_tx := hper
    supply_cap := hcap
    ratio := by
      rw [hopprice]
      exact hratio
    legs := by
      intro hkind
      obtain ⟨readings, hread⟩ := readComposite_ok (readPrice_composite hop hkind)
      refine ⟨readings, hread, ?_⟩
      intro i leg hleg
      obtain ⟨r, hr, hlegRead⟩ := hread.legs.leg i leg hleg
      obtain ⟨legM, hlegM⟩ := hlegRead.admitted
        (fun info hinfo => hacc info (List.mem_append_right _ hinfo)) heur hnamed
      exact ⟨r, legM, hr, hlegM⟩ }

/-- The trade of a step is admitted. -/
theorem ProgramStep.admitted {e : Signed} {x : TradeInput} {t : Trade}
    (h : ProgramStep env s e s') (he : e.act = .traded key x t) (heur : s.EurIsPyth)
    (hnamed : s.Named) :
    ∃ m op m', s'.markets key = some m' ∧ Admitted env s key x t m op m' := by
  cases h with
  | @trade key' m x' out hm hacc h =>
      cases he
      refine ⟨m, ?_⟩
      obtain ⟨q, hbought | hsold, hmarks⟩ := h.inv
      · obtain ⟨op, hop⟩ := hbought.quoted.admitted (t := out.trade) hm hacc heur hnamed hmarks
          (by rw [hbought.effect.trade]) (by rw [hbought.effect.trade]; simp)
          hbought.effect.per_tx (fun _ => hbought.effect.supply_cap)
          (fun _ => hbought.effect.ratio)
        exact ⟨op, _, s.put_markets_self key _, hop⟩
      · have hside : out.trade.side ≠ .buy := by
          rw [hsold.effect.trade]
          simp
        obtain ⟨op, hop⟩ := hsold.quoted.admitted (t := out.trade) hm hacc heur hnamed hmarks
          (by rw [hsold.effect.trade]) (by simp [hside])
          hsold.effect.per_tx (fun hbuy => absurd hbuy hside) (fun hbuy => absurd hbuy hside)
        exact ⟨op, _, s.put_markets_self key _, hop⟩
  | _ => cases he

/-- Every trade accepted in a reachable state is admitted, and over a run no commodity's last
publish time goes back. -/
theorem trades_admitted {s₀ : Program} {tr : List Signed} (hfresh : s₀.Fresh)
    (hrun : ProgramRun env s₀ tr s) :
    (∀ (key : Pubkey) (x : TradeInput) (t : Trade) (signer : Pubkey) (s' : Program),
      ProgramStep env s ⟨signer, .traded key x t⟩ s' →
        ∃ m op m', s'.markets key = some m' ∧ Admitted env s key x t m op m') ∧
    ∀ (tr' : List Signed) (s' : Program), ProgramRun env s tr' s' → LaterMarks s s' := by
  have heur := hrun.eurIsPyth hfresh
  have hnamed := hrun.named hfresh
  constructor
  · intro key x t signer s' hstep
    exact hstep.admitted rfl heur hnamed
  · intro tr' s' htail
    exact htail.laterMarks

end Admission

/-! ### A sample run -/

namespace SampleIndex

open Sample

/-- The sample commodity's creation, with the given oracle kind. -/
def createArgs (kind : OracleKind) : CreateCommodityArgs where
  symbol := ⟨#[65, 0, 0, 0, 0, 0, 0, 0, 0, 0, 0, 0], rfl⟩
  oracleKind := kind.toU8
  sessionKind := 0
  feedId := Bytes32.fill 0
  feedAccount := Pubkey.default
  fxFeedId := Bytes32.fill 0
  fxFeedAccount := Pubkey.default
  quoteScale := quoteUsd
  baseSpreadBps := 50
  closedSpreadBps := 150
  confMultBps := 0
  maxAgeOpen := 60
  maxAgeClosed := 3600
  supplyCap := 1000000000000000
  perTxCap := 1000000000000
  pythMinSignatures := 0
  name := "A"
  uri := ""

def indexLeg : IndexLeg := { commodity := Bytes32.fill 9, weightBps := 10000 }

/-- An index of the sample commodity alone. -/
def index : Commodity :=
  { commodity with
    oracleKind := OracleKind.composite.toU8, legs := legArray [indexLeg], legCount := 1 }

def keeperPrice : KeeperPrice where
  commodity := Bytes32.fill 9
  price := 5000000000
  conf := 0
  publishTime := 1000
  sourceHash := Bytes32.fill 0
  maxMoveBps := defaultMaxMoveBps
  minInterval := defaultMinInterval
  lastUpdateTs := 1000

/-- A commodity's accounts before its first trade. -/
def market (key : Pubkey) (c : Commodity) (kp : Option KeeperPrice) : Market where
  commodity := c
  coinMint := { supply := 0 }
  reserveVault := { mint := Bytes32.fill 5, owner := key, amount := 0 }
  keeperPrice := kp

def fresh : Program := { config, markets := fun _ => none }

def keepers : GlobalConfig :=
  { config with keepers := keeperArray [Bytes32.fill 12], keeperCount := 1 }

def configured : Program := { config := keepers, markets := fun _ => none }

def created : Program :=
  configured.put (Bytes32.fill 9) (market (Bytes32.fill 9) commodity none)

def posted : Program :=
  created.put (Bytes32.fill 9) (market (Bytes32.fill 9) commodity (some keeperPrice))

def listed : Program :=
  posted.put (Bytes32.fill 13)
    (market (Bytes32.fill 13) { index with legs := legArray [], legCount := 0 } none)

/-- The sample commodity, priced by a keeper, and an index of it. -/
def program : Program :=
  listed.put (Bytes32.fill 13) (market (Bytes32.fill 13) index none)

def legInfo : AccountInfo where
  key := Bytes32.fill 9
  owner := Bytes32.fill 1
  data := .commodity commodity

def sourceInfo : AccountInfo where
  key := Bytes32.fill 11
  owner := Bytes32.fill 1
  data := .keeperPrice keeperPrice

/-- A trade on the index a minute after the keeper's post. -/
def indexInput : TradeInput where
  now := 1060
  user := Bytes32.fill 10
  userUsdc := { mint := Bytes32.fill 5, owner := Bytes32.fill 10, amount := 1000000000000 }
  userCoin := { mint := Bytes32.fill 7, owner := Bytes32.fill 10, amount := 0 }
  oracle := { priceFeed := none, fxFeed := none, keeperPrice := none
              remaining := [legInfo, sourceInfo] }

def indexDesk : Desk := program.desk (Bytes32.fill 13) (market (Bytes32.fill 13) index none)

/-- A purchase for 50 USDC. -/
def indexTrade : TradeOutcome :=
  acceptedValue (handleBuy env indexDesk indexInput 50000000 0) (by decide +kernel)

theorem genuine {infos : List AccountInfo} (h : ∀ info ∈ infos, info = legInfo ∨ info = sourceInfo)
    {s : Program} (hleg : ∃ m, s.markets (Bytes32.fill 9) = some m ∧ m.commodity = commodity ∧
      m.keeperPrice = some keeperPrice) : s.Genuine env infos := by
  obtain ⟨m, hm, hc, hkp⟩ := hleg
  intro info hinfo
  rcases h info hinfo with rfl | rfl
  · refine ⟨fun _ c hdata => ⟨m, hm, ?_⟩, fun _ kp hdata => ?_⟩
    · cases hdata
      exact hc
    · cases hdata
  · refine ⟨fun _ c hdata => ?_, fun _ kp hdata => ⟨Bytes32.fill 9, m, hm, ?_⟩⟩
    · cases hdata
    · cases hdata
      exact hkp

theorem listed_market : ∃ m, listed.markets (Bytes32.fill 9) = some m ∧
    m.commodity = commodity ∧ m.keeperPrice = some keeperPrice :=
  ⟨_, rfl, rfl, rfl⟩

theorem program_market : ∃ m, program.markets (Bytes32.fill 9) = some m ∧
    m.commodity = commodity ∧ m.keeperPrice = some keeperPrice :=
  ⟨_, rfl, rfl, rfl⟩

/-- The run that leads to `program`. -/
theorem program_run : ∃ tr, ProgramRun env fresh tr program := by
  have hkeepers : handleSetKeepers config (Bytes32.fill 3) [Bytes32.fill 12] = .ok keepers := by
    decide +kernel
  have hcreate : handleCreateCommodity keepers (Bytes32.fill 3) (Bytes32.fill 5) (Bytes32.fill 7)
      (Bytes32.fill 8) (createArgs .keeperSigned) = .ok commodity := by decide +kernel
  have hpost : handleKeeperUpdatePrice keepers (Bytes32.fill 9) commodity.oracleKind none
      { now := 1000, keeper := Bytes32.fill 12, price := 5000000000, conf := 0
        publishTime := 1000, sourceHash := Bytes32.fill 0 } =
      .ok (keeperPrice, { commodity := Bytes32.fill 9, price := 5000000000, conf := 0
                          publishTime := 1000 }) := by decide +kernel
  have hlist : handleCreateCommodity keepers (Bytes32.fill 3) (Bytes32.fill 5) (Bytes32.fill 7)
      (Bytes32.fill 8) (createArgs .composite) =
      .ok { index with legs := legArray [], legCount := 0 } := by decide +kernel
  have hlegs : handleSetIndexLegs env keepers (Bytes32.fill 3) (Bytes32.fill 13)
      { index with legs := legArray [], legCount := 0 } [indexLeg] [legInfo] = .ok index := by
    decide +kernel
  have h1 : ProgramStep env fresh ⟨Bytes32.fill 3, .configured⟩ configured :=
    .configure (.setKeepers hkeepers)
  have h2 : ProgramStep env configured ⟨Bytes32.fill 3, .created (Bytes32.fill 9)⟩ created :=
    .createCommodity rfl hcreate
  have h3 : ProgramStep env created ⟨Bytes32.fill 12, .posted (Bytes32.fill 9)⟩ posted :=
    .keeperUpdatePrice (configured.put_markets_self _
      (market (Bytes32.fill 9) commodity none)) hpost
  have h4 : ProgramStep env posted ⟨Bytes32.fill 3, .created (Bytes32.fill 13)⟩ listed :=
    .createCommodity rfl hlist
  have h5 : ProgramStep env listed ⟨Bytes32.fill 3, .reconfigured (Bytes32.fill 13)⟩ program :=
    .reconfigure (posted.put_markets_self _ _)
      (.setIndexLegs (genuine (by simp) listed_market) hlegs)
  exact ⟨_, .cons h1 (.cons h2 (.cons h3 (.cons h4 (.single h5))))⟩

/-- The purchase is a step of the program. -/
theorem program_step : ProgramStep env program
    ⟨Bytes32.fill 10, .traded (Bytes32.fill 13) indexInput indexTrade.trade⟩
    (program.put (Bytes32.fill 13)
      ((market (Bytes32.fill 13) index none).withDesk indexTrade.desk)) := by
  have hbuy : handleBuy env indexDesk indexInput 50000000 0 = .ok indexTrade :=
    eq_ok_acceptedValue _
  have hacc : program.Genuine env indexInput.oracle.infos :=
    genuine (by decide +kernel) program_market
  exact .trade (listed.put_markets_self _ _) hacc (.buy hbuy)

end SampleIndex

/-- A purchase of an index, admitted. -/
theorem trades_admitted_sample :
    ∃ m op m', Admitted Sample.env SampleIndex.program (Bytes32.fill 13) SampleIndex.indexInput
      SampleIndex.indexTrade.trade m op m' := by
  obtain ⟨tr, hrun⟩ := SampleIndex.program_run
  obtain ⟨m, op, m', -, h⟩ :=
    (trades_admitted (fun _ => rfl) hrun).1 _ _ _ _ _ SampleIndex.program_step
  exact ⟨m, op, m', h⟩

end IceMarkets.PegDesk
