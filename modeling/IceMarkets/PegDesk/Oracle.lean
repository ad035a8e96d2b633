import IceMarkets.PegDesk.Pricing

/-!
# IceMarkets.PegDesk.Oracle

The oracle adapters of `oracle.rs`. Every path returns a price in USD at 1e8,
already checked for staleness against the commodity's status-dependent max age.

Accounts arrive raw: an address, an owner and data. Deserialising with an Anchor
discriminator is a match on `AccountData`, which fails on any other kind of
account. The Pyth receiver SDK is not part of the repository; its two price
getters are the fields of `PythSdk`, and nothing is assumed about them here.
-/

namespace IceMarkets.PegDesk

/-! ### Accounts -/

/-- `VerificationLevel` of a Pyth update. -/
inductive VerificationLevel
  | full
  | partially (numSignatures : UInt8)
  deriving DecidableEq, Repr

/-- `PriceFeedMessage`, as far as it is read. -/
structure PriceMessage where
  feedId : Bytes32
  price : Int
  conf : UInt64
  exponent : Int
  publishTime : Int
  deriving DecidableEq, Repr

/-- `PriceUpdateV2`. -/
structure PriceUpdateV2 where
  verificationLevel : VerificationLevel
  priceMessage : PriceMessage
  deriving DecidableEq, Repr

/-- The SDK's `Price`. -/
structure PythPrice where
  price : Int
  conf : UInt64
  exponent : Int
  publishTime : Int
  deriving DecidableEq, Repr

/-- What an account's bytes deserialise to. -/
inductive AccountData
  | priceUpdate (u : PriceUpdateV2)
  | keeperPrice (kp : KeeperPrice)
  | commodity (c : Commodity)
  | other
  deriving DecidableEq, Repr

/-- A raw account passed to an instruction. -/
structure AccountInfo where
  key : Pubkey
  owner : Pubkey
  data : AccountData
  deriving DecidableEq, Repr

/-- The Pyth receiver SDK: `get_price_no_older_than` and its variant with a
custom verification level, from the update, the clock, the max age and the feed. -/
structure PythSdk where
  getPriceNoOlderThan : PriceUpdateV2 → Int → UInt32 → Bytes32 → Option PythPrice
  getPriceNoOlderThanWithCustomVerificationLevel :
    PriceUpdateV2 → Int → UInt32 → Bytes32 → VerificationLevel → Option PythPrice

/-- What surrounds the program: its own id, the Pyth receiver's id and SDK. -/
structure Env where
  programId : Pubkey
  pythReceiverId : Pubkey
  pyth : PythSdk

/-- An oracle reading, USD at 1e8. -/
structure OraclePrice where
  price : UInt64
  conf : UInt64
  publishTime : Int
  deriving DecidableEq, Repr

/-- Oracle-related accounts supplied to a trade; unused slots are `none`. -/
structure OracleAccounts where
  priceFeed : Option AccountInfo
  fxFeed : Option AccountInfo
  keeperPrice : Option AccountInfo
  remaining : List AccountInfo
  deriving DecidableEq, Repr

/-! ### Adapters -/

/-- Seconds since `publishTime`, 0 if it is in the future. -/
def ageSecs (now publishTime : Int) : UInt64 :=
  UInt64.ofNat (max (satSubI64 now publishTime) 0).toNat

/-- `RawPrice`: a Pyth price before scaling. -/
structure RawPrice where
  price : UInt64
  conf : UInt64
  expo : Int
  publishTime : Int
  deriving DecidableEq, Repr

def readPythRaw (env : Env) (info : AccountInfo) (expectedKey : Pubkey) (feedId : Bytes32)
    (maxAge : UInt32) (minSignatures : UInt8) (now : Int) : DeskResult RawPrice := do
  require (info.key = expectedKey) .invalidFeed
  require (info.owner = env.pythReceiverId) .invalidFeed
  let update ← okOr (match info.data with | .priceUpdate u => some u | _ => none) .invalidFeed
  require (update.priceMessage.feedId = feedId) .invalidFeed
  let levelOk : Bool := match update.verificationLevel with
    | .full => true
    | .partially numSignatures => decide (0 < minSignatures ∧ minSignatures ≤ numSignatures)
  require (levelOk = true) .invalidFeed
  let p ← okOr
    (if minSignatures = 0 then env.pyth.getPriceNoOlderThan update now maxAge feedId
      else env.pyth.getPriceNoOlderThanWithCustomVerificationLevel update now maxAge feedId
        (.partially minSignatures)) .staleOracle
  require (0 < p.price) .nonPositivePrice
  .ok { price := UInt64.ofNat p.price.toNat, conf := p.conf, expo := p.exponent,
        publishTime := p.publishTime }

def readPythCommodity (env : Env) (c : Commodity) (feed : AccountInfo) (fxFeed : Option AccountInfo)
    (maxAge : UInt32) (now : Int) : DeskResult OraclePrice := do
  let raw ← readPythRaw env feed c.feedAccount c.feedId maxAge c.pythMinSignatures now
  if c.quoteScale ≠ quoteEur then do
    let price ← okOr (scaleQuote raw.price raw.expo c.quoteScale 0 0) .mathOverflow
    let conf ← okOr (scaleQuote raw.conf raw.expo c.quoteScale 0 0) .mathOverflow
    .ok { price, conf, publishTime := raw.publishTime }
  else do
    -- EUR-quoted: multiply by EUR/USD
    let fxInfo ← okOr fxFeed .invalidFeed
    let fx ← readPythRaw env fxInfo c.fxFeedAccount c.fxFeedId maxAge c.pythMinSignatures now
    let price ← okOr (scaleQuote raw.price raw.expo quoteEur fx.price fx.expo) .mathOverflow
    let confA ← okOr (scaleQuote raw.conf raw.expo quoteEur fx.price fx.expo) .mathOverflow
    let confB := (scaleQuote raw.price raw.expo quoteEur fx.conf fx.expo).getD 0
    let conf ← okOr (checkedAdd confA confB) .mathOverflow
    .ok { price, conf, publishTime := min raw.publishTime fx.publishTime }

def loadKeeperPrice (env : Env) (info : AccountInfo) (commodityKey : Pubkey) :
    DeskResult KeeperPrice := do
  require (info.owner = env.programId) .invalidFeed
  let kp ← okOr (match info.data with | .keeperPrice kp => some kp | _ => none) .invalidFeed
  require (kp.commodity = commodityKey) .invalidFeed
  .ok kp

def readKeeperPrice (env : Env) (info : AccountInfo) (commodityKey : Pubkey) :
    DeskResult OraclePrice := do
  let kp ← loadKeeperPrice env info commodityKey
  .ok { price := kp.price, conf := kp.conf, publishTime := kp.publishTime }

/-- The stand-in: a `KeeperPrice`-shaped account at `commodity.feed_account`. -/
def readSwitchboard (env : Env) (c : Commodity) (commodityKey : Pubkey) (feed : AccountInfo) :
    DeskResult OraclePrice := do
  require (feed.key = c.feedAccount) .invalidFeed
  readKeeperPrice env feed commodityKey

def loadCommodity (env : Env) (info : AccountInfo) : DeskResult Commodity := do
  require (info.owner = env.programId) .invalidLegs
  okOr (match info.data with | .commodity c => some c | _ => none) .invalidLegs

/-- Read one leg of an index. Legs may not be Composite or EUR-quoted. -/
def readLeg (env : Env) (leg : Commodity) (legKey : Pubkey) (source : AccountInfo) (now : Int) :
    DeskResult OraclePrice := do
  require (leg.status ≠ statusHalted) .marketHalted
  let kind ← okOr leg.oracleKindEnum .invalidLegs
  let out ← (match kind with
    | .pythPull => do
        require (leg.quoteScale ≠ quoteEur) .invalidLegs
        readPythCommodity env leg source none leg.maxAge now
    | .keeperSigned => readKeeperPrice env source legKey
    | .switchboard => readSwitchboard env leg legKey source
    | .composite => .error (.custom .invalidLegs) : DeskResult OraclePrice)
  require ((ageSecs now out.publishTime).toNat ≤ leg.maxAge.toNat) .staleOracle
  require (0 < out.price) .nonPositivePrice
  .ok out

/-- The loop of `read_composite`: one reading for each active leg, from the leg's
account and its price source. -/
def readLegs (env : Env) (commodityKey : Pubkey) (now : Int) :
    List IndexLeg → List AccountInfo → DeskResult (List (OraclePrice × UInt16))
  | [], _ => .ok []
  | leg :: legs, legInfo :: source :: rest => do
      require (legInfo.key = leg.commodity) .invalidLegs
      require (legInfo.key ≠ commodityKey) .invalidLegs
      let legC ← loadCommodity env legInfo
      let p ← readLeg env legC legInfo.key source now
      let ps ← readLegs env commodityKey now legs rest
      .ok ((p, leg.weightBps) :: ps)
  | _ :: _, _ => .error (.custom .invalidLegs)

def readComposite (env : Env) (c : Commodity) (commodityKey : Pubkey)
    (remaining : List AccountInfo) (now : Int) : DeskResult OraclePrice := do
  let legs := c.activeLegs
  require (0 < legs.length) .invalidLegs
  require (legs.length * 2 ≤ remaining.length) .invalidLegs
  let ps ← readLegs env commodityKey now legs remaining
  let price ← okOr (weightedSum (ps.map fun p => (p.1.price, p.2))) .invalidLegs
  let conf ← okOr (weightedSum (ps.map fun p => (p.1.conf, p.2))) .invalidLegs
  .ok { price, conf, publishTime := (ps.map fun p => p.1.publishTime).foldl min i64Max }

/-- Read and validate the price for `commodity`, dispatching on its `OracleKind`. -/
def readPrice (env : Env) (c : Commodity) (commodityKey : Pubkey) (accts : OracleAccounts)
    (now : Int) : DeskResult OraclePrice := do
  let kind ← okOr c.oracleKindEnum .invalidOracleKind
  let out ← (match kind with
    | .pythPull => do
        let feed ← okOr accts.priceFeed .invalidFeed
        readPythCommodity env c feed accts.fxFeed c.maxAge now
    | .keeperSigned => do
        let kp ← okOr accts.keeperPrice .invalidFeed
        readKeeperPrice env kp commodityKey
    | .switchboard => do
        let feed ← okOr accts.priceFeed .invalidFeed
        readSwitchboard env c commodityKey feed
    | .composite => readComposite env c commodityKey accts.remaining now : DeskResult OraclePrice)
  require ((ageSecs now out.publishTime).toNat ≤ c.maxAge.toNat) .staleOracle
  require (0 < out.price) .nonPositivePrice
  .ok out

/-! ### What an accepted reading guarantees -/

/-- An accepted reading is positive and no older than the commodity allows. -/
theorem readPrice_ok {env : Env} {c : Commodity} {key : Pubkey} {accts : OracleAccounts} {now : Int}
    {out : OraclePrice} (h : readPrice env c key accts now = .ok out) :
    0 < out.price.toNat ∧ (ageSecs now out.publishTime).toNat ≤ c.maxAge.toNat := by
  unfold readPrice at h
  obtain ⟨kind, -, h⟩ := okOr_bind_eq_ok.mp h
  obtain ⟨out', -, h⟩ := bind_eq_ok.mp h
  obtain ⟨hage, h⟩ := require_bind_eq_ok.mp h
  obtain ⟨hpos, h⟩ := require_bind_eq_ok.mp h
  cases h
  exact ⟨UInt64.lt_iff_toNat_lt.mp hpos, hage⟩

theorem ageSecs_toNat (now publishTime : Int) :
    (ageSecs now publishTime).toNat = (max (satSubI64 now publishTime) 0).toNat := by
  have hmax : (max (satSubI64 now publishTime) 0).toNat < 2 ^ 64 := by
    unfold satSubI64 clampI64 i64Max i64Min
    omega
  unfold ageSecs
  rw [UInt64.toNat_ofNat', Nat.mod_eq_of_lt hmax]

/-- A bound on the age is one on the exact difference: a saturated one is beyond any bound. -/
theorem sub_le_of_ageSecs_le {now publishTime : Int} {maxAge : UInt32}
    (h : (ageSecs now publishTime).toNat ≤ maxAge.toNat) : now - publishTime ≤ maxAge.toNat := by
  have hlt := maxAge.toNat_lt
  rw [ageSecs_toNat] at h
  unfold satSubI64 clampI64 i64Max i64Min at h
  omega

/-- The reading depends on the commodity only through its terms. -/
theorem readPrice_congr {env : Env} {c c' : Commodity} {key : Pubkey} {accts : OracleAccounts}
    {now : Int} (h : c.SameTerms c') :
    readPrice env c' key accts now = readPrice env c key accts now := by
  rw [h]
  rfl

/-! ### How a reading fails -/

/-- The codes an oracle reading can fail with. -/
def oracleErrors : List PegDeskError :=
  [.invalidFeed, .staleOracle, .nonPositivePrice, .mathOverflow, .invalidLegs, .marketHalted,
    .invalidOracleKind]

section Errors

variable {env : Env} {c : Commodity} {key : Pubkey} {now : Int}

theorem readPythRaw_raises {info : AccountInfo} {expectedKey : Pubkey} {feedId : Bytes32}
    {maxAge : UInt32} {minSignatures : UInt8} :
    RaisesOnly oracleErrors
      (readPythRaw env info expectedKey feedId maxAge minSignatures now) := by
  unfold readPythRaw
  refine .bind (.require (by decide)) fun _ => .bind (.require (by decide)) fun _ =>
    .bind (.okOr (by decide)) fun _ => .bind (.require (by decide)) fun _ =>
    .bind (.require (by decide)) fun _ => .bind (.okOr (by decide)) fun _ =>
    .bind (.require (by decide)) fun _ => .ok _

theorem readPythCommodity_raises {feed : AccountInfo} {fxFeed : Option AccountInfo}
    {maxAge : UInt32} :
    RaisesOnly oracleErrors (readPythCommodity env c feed fxFeed maxAge now) := by
  unfold readPythCommodity
  refine .bind readPythRaw_raises fun raw => ?_
  split
  · exact .bind (.okOr (by decide)) fun _ => .bind (.okOr (by decide)) fun _ => .ok _
  · exact .bind (.okOr (by decide)) fun _ => .bind readPythRaw_raises fun _ =>
      .bind (.okOr (by decide)) fun _ => .bind (.okOr (by decide)) fun _ =>
      .bind (.okOr (by decide)) fun _ => .ok _

theorem readKeeperPrice_raises {info : AccountInfo} :
    RaisesOnly oracleErrors (readKeeperPrice env info key) := by
  unfold readKeeperPrice loadKeeperPrice
  exact .bind (.bind (.require (by decide)) fun _ => .bind (.okOr (by decide)) fun _ =>
    .bind (.require (by decide)) fun _ => .ok _) fun _ => .ok _

theorem readSwitchboard_raises {feed : AccountInfo} :
    RaisesOnly oracleErrors (readSwitchboard env c key feed) := by
  unfold readSwitchboard
  exact .bind (.require (by decide)) fun _ => readKeeperPrice_raises

theorem readLeg_raises {leg : Commodity} {source : AccountInfo} :
    RaisesOnly oracleErrors (readLeg env leg key source now) := by
  unfold readLeg
  refine .bind (.require (by decide)) fun _ => .bind (.okOr (by decide)) fun kind => .bind ?_
    fun _ => .bind (.require (by decide)) fun _ => .bind (.require (by decide)) fun _ => .ok _
  cases kind with
  | pythPull => exact .bind (.require (by decide)) fun _ => readPythCommodity_raises
  | keeperSigned => exact readKeeperPrice_raises
  | switchboard => exact readSwitchboard_raises
  | composite => exact .error (by decide)

theorem readLegs_raises (legs : List IndexLeg) (infos : List AccountInfo) :
    RaisesOnly oracleErrors (readLegs env key now legs infos) := by
  induction legs, infos using readLegs.induct with
  | case1 infos => exact .ok _
  | case2 leg legs legInfo source rest ih =>
      unfold readLegs loadCommodity
      exact .bind (.require (by decide)) fun _ => .bind (.require (by decide)) fun _ =>
        .bind (.bind (.require (by decide)) fun _ => .okOr (by decide)) fun _ =>
        .bind readLeg_raises fun _ => .bind ih fun _ => .ok _
  | case3 leg legs infos h =>
      rw [readLegs.eq_3 _ _ _ _ _ _ h]
      exact .error (by decide)

theorem readComposite_raises {remaining : List AccountInfo} :
    RaisesOnly oracleErrors (readComposite env c key remaining now) := by
  unfold readComposite
  exact .bind (.require (by decide)) fun _ => .bind (.require (by decide)) fun _ =>
    .bind (readLegs_raises _ _) fun _ => .bind (.okOr (by decide)) fun _ =>
    .bind (.okOr (by decide)) fun _ => .ok _

theorem readPrice_raises {accts : OracleAccounts} :
    RaisesOnly oracleErrors (readPrice env c key accts now) := by
  unfold readPrice
  refine .bind (.okOr (by decide)) fun kind => .bind ?_ fun _ => .bind (.require (by decide))
    fun _ => .bind (.require (by decide)) fun _ => .ok _
  cases kind with
  | pythPull => exact .bind (.okOr (by decide)) fun _ => readPythCommodity_raises
  | keeperSigned => exact .bind (.okOr (by decide)) fun _ => readKeeperPrice_raises
  | switchboard => exact .bind (.okOr (by decide)) fun _ => readSwitchboard_raises
  | composite => exact readComposite_raises

end Errors

end IceMarkets.PegDesk
