import IceMarkets.Lib.Run
import IceMarkets.Lib.Walk
import IceMarkets.PegDesk.Pricing

/-!
# IceMarkets.PegDesk.Keeper

The keeper-signed price feed of `keeper.rs` over runs of posts.

A post is accepted within `max_move_bps` of the last price, and with a later feed
time at least `min_interval` seconds of validator time after the last post. The
last two checks are skipped while the stored feed time is zero, the mark of a new
account; a post may carry zero itself, and then the next post is not limited
either. Prices form a walk of bounded relative moves in every run
(`keeper_run_moves`), and its pace is bounded when only the last post may carry
zero (`keeper_run_walk`).
-/

namespace IceMarkets.PegDesk

open Lts Walk

/-! ### Definitions -/

/-- A `KeeperPrice` account as `init_if_needed` creates it. -/
def KeeperPrice.zeroed : KeeperPrice where
  commodity := Pubkey.default
  price := 0
  conf := 0
  publishTime := 0
  sourceHash := Bytes32.fill 0
  maxMoveBps := 0
  minInterval := 0
  lastUpdateTs := 0

/-- The signer, arguments and clock of a post. -/
structure Post where
  now : Int
  keeper : Pubkey
  price : UInt64
  conf : UInt64
  publishTime : Int
  sourceHash : Bytes32
  deriving DecidableEq, Repr

/-- The `PriceUpdated` event. -/
structure PriceUpdated where
  commodity : Pubkey
  price : UInt64
  conf : UInt64
  publishTime : Int
  deriving DecidableEq, Repr

/-- A first write claims the account and sets the default bounds; a later one must
be for the same commodity. -/
def claimKeeperPrice (kp : KeeperPrice) (commodityKey : Pubkey) : DeskResult KeeperPrice :=
  if kp.commodity = Pubkey.default then
    .ok { kp with commodity := commodityKey, maxMoveBps := defaultMaxMoveBps
                  minInterval := defaultMinInterval }
  else do
    require (kp.commodity = commodityKey) .invalidFeed
    .ok kp

/-- The feed-time and rate checks, made once a feed time is stored. -/
def checkKeeperPace (kp : KeeperPrice) (publishTime now : Int) : DeskResult Unit :=
  if kp.publishTime ≠ 0 then do
    require (kp.publishTime < publishTime) .oracleNotMonotonic
    -- the spacing is enforced on the validator clock
    require (((max kp.minInterval 1).toNat : Int) ≤ satSubI64 now kp.lastUpdateTs) .tooSoon
  else .ok ()

/-- The move check, made once a price is stored. -/
def checkKeeperMove (kp : KeeperPrice) (price : UInt64) : DeskResult Unit :=
  if 0 < kp.price then
    require ((absDiff price kp.price).toNat * bps / kp.price.toNat ≤ kp.maxMoveBps.toNat)
      .moveTooLarge
  else .ok ()

/-- `price` and `conf` are USD at 1e8. The account is created by its first post. -/
def handleKeeperUpdatePrice (config : GlobalConfig) (commodityKey : Pubkey) (oracleKind : UInt8)
    (account : Option KeeperPrice) (x : Post) : DeskResult (KeeperPrice × PriceUpdated) := do
  require (config.isKeeper x.keeper = true) .unauthorized
  require (oracleKind = OracleKind.keeperSigned.toU8 ∨ oracleKind = OracleKind.switchboard.toU8)
    .invalidOracleKind
  require (0 < x.price) .nonPositivePrice
  require (x.conf < x.price) .confidenceTooWide
  require (0 ≤ x.publishTime ∧ x.publishTime ≤ satAddI64 x.now maxFutureSkewSecs) .invalidParams
  let kp ← claimKeeperPrice (account.getD .zeroed) commodityKey
  checkKeeperPace kp x.publishTime x.now
  checkKeeperMove kp x.price
  .ok ({ kp with price := x.price, conf := x.conf, publishTime := x.publishTime
                 sourceHash := x.sourceHash, lastUpdateTs := x.now },
    { commodity := commodityKey, price := x.price, conf := x.conf, publishTime := x.publishTime })

/-- An accepted post on a commodity's account, whatever the config and oracle kind
at the time. -/
def KeeperStep (commodityKey : Pubkey) (account : Option KeeperPrice) (x : Post)
    (account' : Option KeeperPrice) : Prop :=
  ∃ config oracleKind kp ev, handleKeeperUpdatePrice config commodityKey oracleKind account x =
    .ok (kp, ev) ∧ account' = some kp

/-- A post beside the validator clock, which never goes back. -/
structure ClockedPost (commodityKey : Pubkey) (s : Option KeeperPrice × Int) (x : Post)
    (s' : Option KeeperPrice × Int) : Prop where
  step : KeeperStep commodityKey s.1 x s'.1
  le_now : s.2 ≤ x.now
  clock : s'.2 = x.now

/-- A run of accepted posts. -/
abbrev KeeperRun (commodityKey : Pubkey) : Option KeeperPrice × Int → List Post →
    Option KeeperPrice × Int → Prop := Run (ClockedPost commodityKey)

/-- `(max_move_bps + 1) / 10_000` for the default bound. -/
def keeperMove : ℚ := (defaultMaxMoveBps.toNat + 1 : ℕ) / bps

/-- `max(min_interval, 1)` for the default bound. -/
def keeperInterval : Nat := (max defaultMinInterval 1).toNat

/-- The new price differs from the old by less than `(max_move_bps + 1) / 10_000` of it. -/
def Moves (p q : Post) : Prop :=
  |(q.price.toNat : ℚ) - p.price.toNat| < keeperMove * p.price.toNat

/-- `q` obeys the feed-time and rate limits after `p`. -/
def Paced (p q : Post) : Prop :=
  p.publishTime < q.publishTime ∧ (keeperInterval : Int) ≤ q.now - p.now

/-! ### One post -/

/-- The account an accepted post leaves. -/
structure PostedBy (x : Post) (kp : KeeperPrice) : Prop where
  price : kp.price = x.price
  price_pos : 0 < x.price.toNat
  publishTime : kp.publishTime = x.publishTime
  lastUpdateTs : kp.lastUpdateTs = x.now
  maxMoveBps : kp.maxMoveBps = defaultMaxMoveBps
  minInterval : kp.minInterval = defaultMinInterval

/-- Claiming keeps the price marks, and the bounds where they are the defaults. -/
theorem claimKeeperPrice_ok {kp kp' : KeeperPrice} {key : Pubkey}
    (h : claimKeeperPrice kp key = .ok kp') :
    kp'.price = kp.price ∧ kp'.publishTime = kp.publishTime ∧ kp'.lastUpdateTs = kp.lastUpdateTs ∧
      ((kp.commodity ≠ Pubkey.default → kp.maxMoveBps = defaultMaxMoveBps ∧
          kp.minInterval = defaultMinInterval) →
        kp'.maxMoveBps = defaultMaxMoveBps ∧ kp'.minInterval = defaultMinInterval) := by
  unfold claimKeeperPrice at h
  split at h
  · next hnew =>
      cases h
      exact ⟨rfl, rfl, rfl, fun _ => ⟨rfl, rfl⟩⟩
  · next hold =>
      obtain ⟨-, h⟩ := require_bind_eq_ok.mp h
      cases h
      exact ⟨rfl, rfl, rfl, fun h => h hold⟩

theorem checkKeeperPace_ok {kp : KeeperPrice} {publishTime now : Int} {u : Unit}
    (h : checkKeeperPace kp publishTime now = .ok u) (hne : kp.publishTime ≠ 0) :
    kp.publishTime < publishTime ∧
      ((max kp.minInterval 1).toNat : Int) ≤ now - kp.lastUpdateTs := by
  unfold checkKeeperPace at h
  rw [if_pos hne] at h
  obtain ⟨hmono, h⟩ := require_bind_eq_ok.mp h
  have hle := require_eq_ok.mp h
  have hlt := (max kp.minInterval 1).toNat_lt
  exact ⟨hmono, (le_clampI64 (by unfold i64Max; omega) (by unfold i64Min; omega)).mp hle⟩

/-- The move check bounds the difference by the next whole number of basis points. -/
theorem checkKeeperMove_ok {kp : KeeperPrice} {price : UInt64} {u : Unit}
    (h : checkKeeperMove kp price = .ok u) (hpos : 0 < kp.price.toNat) :
    (absDiff price kp.price).toNat * bps < (kp.maxMoveBps.toNat + 1) * kp.price.toNat := by
  unfold checkKeeperMove at h
  rw [if_pos (show 0 < kp.price from UInt64.lt_iff_toNat_lt.mpr hpos)] at h
  have hle := require_eq_ok.mp h
  exact (Nat.div_lt_iff_lt_mul hpos).mp (Nat.lt_succ_of_le hle)

section Step

variable {key : Pubkey} {account account' : Option KeeperPrice} {p x : Post} {kp : KeeperPrice}

/-- What an accepted post checked against the account it found. -/
theorem KeeperStep.inv (h : KeeperStep key account x account') :
    ∃ kp kp', claimKeeperPrice (account.getD .zeroed) key = .ok kp ∧
      checkKeeperPace kp x.publishTime x.now = .ok () ∧ checkKeeperMove kp x.price = .ok () ∧
      0 < x.price.toNat ∧ account' = some kp' ∧
      kp' = { kp with price := x.price, conf := x.conf, publishTime := x.publishTime
                      sourceHash := x.sourceHash, lastUpdateTs := x.now } := by
  obtain ⟨config, oracleKind, kp', ev, h, rfl⟩ := h
  unfold handleKeeperUpdatePrice at h
  obtain ⟨-, h⟩ := require_bind_eq_ok.mp h
  obtain ⟨-, h⟩ := require_bind_eq_ok.mp h
  obtain ⟨hprice, h⟩ := require_bind_eq_ok.mp h
  obtain ⟨-, h⟩ := require_bind_eq_ok.mp h
  obtain ⟨-, h⟩ := require_bind_eq_ok.mp h
  obtain ⟨kp, hclaim, h⟩ := bind_eq_ok.mp h
  obtain ⟨_, hpace, h⟩ := bind_eq_ok.mp h
  obtain ⟨_, hmove, h⟩ := bind_eq_ok.mp h
  cases h
  exact ⟨kp, _, hclaim, hpace, hmove, UInt64.lt_iff_toNat_lt.mp hprice, rfl, rfl⟩

/-- The first post creates the account with the default bounds. -/
theorem KeeperStep.first (h : KeeperStep key none x account') :
    ∃ kp, account' = some kp ∧ PostedBy x kp := by
  obtain ⟨kp, kp', hclaim, -, -, hpos, rfl, rfl⟩ := h.inv
  obtain ⟨-, -, -, hbounds⟩ := claimKeeperPrice_ok hclaim
  obtain ⟨hmove, hint⟩ := hbounds fun hne => absurd rfl hne
  exact ⟨_, rfl, rfl, hpos, rfl, rfl, hmove, hint⟩

/-- A later post keeps the default bounds, moves the price within them, and is paced
unless the post before it carried feed time zero. -/
theorem KeeperStep.next (h : KeeperStep key (some kp) x account') (hkp : PostedBy p kp) :
    ∃ kp', account' = some kp' ∧ PostedBy x kp' ∧ Moves p x ∧
      (p.publishTime ≠ 0 → Paced p x) := by
  obtain ⟨kp₁, kp', hclaim, hpace, hmove, hpos, rfl, rfl⟩ := h.inv
  obtain ⟨hprice, hpub, hts, hbounds⟩ := claimKeeperPrice_ok hclaim
  obtain ⟨hmax, hint⟩ := hbounds fun _ => ⟨hkp.maxMoveBps, hkp.minInterval⟩
  rw [Option.getD_some] at hprice hpub hts
  rw [hkp.price] at hprice
  rw [hkp.publishTime] at hpub
  rw [hkp.lastUpdateTs] at hts
  refine ⟨_, rfl, ⟨rfl, hpos, rfl, rfl, hmax, hint⟩, ?_, ?_⟩
  · have hlt := checkKeeperMove_ok hmove (by rw [hprice]; exact hkp.price_pos)
    rw [hprice, hmax] at hlt
    have hq : ((absDiff x.price p.price).toNat : ℚ) * bps
        < (defaultMaxMoveBps.toNat + 1 : ℕ) * p.price.toNat := by exact_mod_cast hlt
    have hb : (0 : ℚ) < bps := by unfold bps; norm_num
    unfold Moves keeperMove
    rw [← cast_absDiff, show ((defaultMaxMoveBps.toNat + 1 : ℕ) / bps : ℚ) * p.price.toNat
      = (defaultMaxMoveBps.toNat + 1 : ℕ) * p.price.toNat / bps by ring, lt_div_iff₀ hb]
    exact hq
  · intro hne
    obtain ⟨hmono, hle⟩ := checkKeeperPace_ok hpace (by rw [hpub]; exact hne)
    rw [hpub] at hmono
    rw [hint, hts] at hle
    exact ⟨hmono, hle⟩

end Step

/-! ### Runs -/

section Run

variable {key : Pubkey} {s s' : Option KeeperPrice × Int} {p : Post} {posts : List Post}
  {kp : KeeperPrice}

/-- A run from an account its last post left: each post moves the price within the
bounds of the one before, and is paced when that one carried a feed time. -/
theorem chain_of_posted (h : KeeperRun key s posts s') (hs : s.1 = some kp) (hkp : PostedBy p kp) :
    (p :: posts).IsChain fun p q => Moves p q ∧ (p.publishTime ≠ 0 → Paced p q) := by
  induction h generalizing p kp with
  | nil s => exact .singleton p
  | @cons s t u x posts head tail ih =>
      have hstep := head.step
      rw [hs] at hstep
      obtain ⟨kp', ht, hkp', hmove, hpace⟩ := hstep.next hkp
      exact .cons_cons ⟨hmove, hpace⟩ (ih ht hkp')

/-- In every run from the creation of the account each post moves the price within
the bounds of the one before, and is paced when that one carried a feed time. -/
theorem keeper_run_chain (h : KeeperRun key s posts s') (hs : s.1 = none) :
    posts.IsChain fun p q => Moves p q ∧ (p.publishTime ≠ 0 → Paced p q) := by
  cases h with
  | nil s => exact .nil
  | cons head tail =>
      have hstep := head.step
      rw [hs] at hstep
      obtain ⟨kp, ht, hkp⟩ := hstep.first
      exact chain_of_posted tail ht hkp

/-- In every run the prices are a walk of moves within the bounds. -/
theorem keeper_run_moves (h : KeeperRun key s posts s') (hs : s.1 = none) :
    posts.IsChain Moves :=
  (keeper_run_chain h hs).imp fun _ _ h => h.1

/-- A chain whose link needs a property of its first point holds of it when all
points but the last have the property. -/
theorem isChain_of_dropLast {α : Type*} {P : α → Prop} {R S : α → α → Prop} {l : List α}
    (h : l.IsChain fun a b => R a b ∧ (P a → S a b)) (hP : ∀ a ∈ l.dropLast, P a) :
    l.IsChain fun a b => R a b ∧ S a b := by
  induction h with
  | nil => exact .nil
  | singleton a => exact .singleton a
  | cons_cons hab _ ih =>
      rw [List.dropLast_cons_cons] at hP
      exact .cons_cons ⟨hab.1, hab.2 (hP _ List.mem_cons_self)⟩
        (ih fun a ha => hP a (List.mem_cons_of_mem _ ha))

/-- Along a chain, `k` moves away: within the bounds of `k` moves, and at least `k`
intervals later. -/
theorem walk_of_chain (h : posts.IsChain fun p q => Moves p q ∧ Paced p q) (i k : ℕ)
    (hik : i + k < posts.length) :
    Reach keeperMove (posts[i].price.toNat : ℚ) k (posts[i + k].price.toNat : ℚ) ∧
      (k * keeperInterval : Int) ≤ posts[i + k].now - posts[i].now := by
  have hd : (0 : ℚ) ≤ keeperMove := by unfold keeperMove; positivity
  induction k with
  | zero => exact ⟨.refl (Nat.cast_nonneg _), by simp⟩
  | succ k ih =>
      obtain ⟨hreach, hnow⟩ := ih (by omega)
      obtain ⟨hmove, -, hpace⟩ := h.getElem (i + k) hik
      refine ⟨hreach.move (m := 1) (Nat.cast_nonneg _) hd (Nat.cast_nonneg _) ?_, ?_⟩
      · unfold Move
        rw [Nat.cast_one, one_mul]
        exact le_of_lt hmove
      · have hexp : ((k + 1 : ℕ) * keeperInterval : Int) = k * keeperInterval + keeperInterval := by
          push_cast
          ring
        rw [hexp]
        have : posts[i + (k + 1)].now = posts[i + k + 1].now := rfl
        omega

end Run

/-- When no post but the last carries feed time zero: each post has a later feed time
than the one before, at least the minimum interval after it on the validator clock,
and a price within the bounds of it; so between two posts there are at most as many
moves as intervals, and the price compounds at most the bound for each. -/
theorem keeper_run_walk {key : Pubkey} {t₀ : Int} {posts : List Post}
    {s' : Option KeeperPrice × Int} (h : KeeperRun key (none, t₀) posts s')
    (hzero : ∀ p ∈ posts.dropLast, p.publishTime ≠ 0) :
    posts.IsChain (fun p q => p.publishTime < q.publishTime ∧
      (keeperInterval : Int) ≤ q.now - p.now ∧
      |(q.price.toNat : ℚ) - p.price.toNat| < keeperMove * p.price.toNat) ∧
    ∀ i j (hij : i < j) (hj : j < posts.length),
      ((j - i : ℕ) : Int) ≤ (posts[j].now - posts[i].now) / keeperInterval ∧
        (posts[j].price.toNat : ℚ) ≤ posts[i].price.toNat * (1 + keeperMove) ^ (j - i) := by
  have hchain := isChain_of_dropLast (keeper_run_chain h rfl) hzero
  refine ⟨hchain.imp fun p q hpq => ⟨hpq.2.1, hpq.2.2, hpq.1⟩, fun i j hij hj => ?_⟩
  obtain ⟨k, rfl⟩ := Nat.exists_eq_add_of_le (Nat.le_of_lt hij)
  obtain ⟨hreach, hnow⟩ := walk_of_chain hchain i k hj
  rw [Nat.add_sub_cancel_left]
  exact ⟨(Int.le_ediv_iff_mul_le (by decide)).mpr hnow, hreach.upper⟩

namespace Sample

/-- A config with one keeper. -/
def keeperConfig : GlobalConfig where
  admin := Bytes32.fill 3
  pendingAdmin := Pubkey.default
  keepers := Vector.replicate maxKeepers (Bytes32.fill 12)
  keeperCount := 1
  treasury := Bytes32.fill 4
  reserveMint := Bytes32.fill 5
  globalPause := false
  maxConfBps := 200
  reserveWarnBps := 10200
  reserveHaltBps := 10000
  redeemCapExempt := Bytes32.fill 6

def post (now : Int) (price : UInt64) (publishTime : Int) : Post where
  now := now
  keeper := Bytes32.fill 12
  price := price
  conf := 0
  publishTime := publishTime
  sourceHash := Bytes32.fill 0

/-- The account an accepted post leaves. -/
def posted (account : Option KeeperPrice) (x : Post) : DeskResult (KeeperPrice × PriceUpdated) :=
  handleKeeperUpdatePrice keeperConfig (Bytes32.fill 9) OracleKind.keeperSigned.toU8 account x

theorem keeperStep_of_isOk (account : Option KeeperPrice) (x : Post)
    (h : (posted account x).isOk = true) :
    KeeperStep (Bytes32.fill 9) account x (some (acceptedValue (posted account x) h).1) :=
  ⟨keeperConfig, OracleKind.keeperSigned.toU8, _, _, eq_ok_acceptedValue h, rfl⟩

def firstPaced : KeeperPrice × PriceUpdated :=
  acceptedValue (posted none (post 1000 10000000000 990)) (by decide +kernel)

def secondPaced : KeeperPrice × PriceUpdated :=
  acceptedValue (posted (some firstPaced.1) (post 1030 10500000000 1020)) (by decide +kernel)

theorem run_paced : KeeperRun (Bytes32.fill 9) (none, 1000)
    [post 1000 10000000000 990, post 1030 10500000000 1020] (some secondPaced.1, 1030) := by
  have h₁ : ClockedPost (Bytes32.fill 9) (none, 1000) (post 1000 10000000000 990)
      (some firstPaced.1, 1000) :=
    ⟨keeperStep_of_isOk none _ (by decide +kernel), by decide, rfl⟩
  have h₂ : ClockedPost (Bytes32.fill 9) (some firstPaced.1, 1000) (post 1030 10500000000 1020)
      (some secondPaced.1, 1030) :=
    ⟨keeperStep_of_isOk (some firstPaced.1) _ (by decide +kernel), by decide, rfl⟩
  exact .cons h₁ (.single h₂)

def firstZero : KeeperPrice × PriceUpdated :=
  acceptedValue (posted none (post 1000 10000000000 0)) (by decide +kernel)

def secondZero : KeeperPrice × PriceUpdated :=
  acceptedValue (posted (some firstZero.1) (post 1000 10500000000 0)) (by decide +kernel)

theorem run_zero : KeeperRun (Bytes32.fill 9) (none, 1000)
    [post 1000 10000000000 0, post 1000 10500000000 0] (some secondZero.1, 1000) := by
  have h₁ : ClockedPost (Bytes32.fill 9) (none, 1000) (post 1000 10000000000 0)
      (some firstZero.1, 1000) :=
    ⟨keeperStep_of_isOk none _ (by decide +kernel), by decide, rfl⟩
  have h₂ : ClockedPost (Bytes32.fill 9) (some firstZero.1, 1000) (post 1000 10500000000 0)
      (some secondZero.1, 1000) :=
    ⟨keeperStep_of_isOk (some firstZero.1) _ (by decide +kernel), by decide, rfl⟩
  exact .cons h₁ (.single h₂)

end Sample

/-- Two posts thirty seconds apart. -/
theorem keeper_run_walk_paced :
    ((Sample.post 1030 10500000000 1020).price.toNat : ℚ) ≤
      (Sample.post 1000 10000000000 990).price.toNat * (1 + keeperMove) ^ 1 :=
  ((keeper_run_walk Sample.run_paced (by decide)).2 0 1 (by decide) (by decide)).2

/-- Two posts with feed time zero in one second, each moving the price by 5%. -/
theorem keeper_run_unpaced :
    KeeperRun (Bytes32.fill 9) (none, 1000)
        [Sample.post 1000 10000000000 0, Sample.post 1000 10500000000 0]
        (some Sample.secondZero.1, 1000) ∧
      ¬ [Sample.post 1000 10000000000 0, Sample.post 1000 10500000000 0].IsChain
        (fun p q => p.publishTime < q.publishTime ∧ (keeperInterval : Int) ≤ q.now - p.now) := by
  refine ⟨Sample.run_zero, ?_⟩
  decide

end IceMarkets.PegDesk
