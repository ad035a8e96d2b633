import IceMarkets.Distributor.State
import IceMarkets.FeeRouter.State
import IceMarkets.Lib.JsNumber
import IceMarkets.PegDesk.Admin

/-!
# IceMarkets.Indexer.Events

The events of the programs that the indexer stores, and their way from Anchor's decoded
form to the indexer's own (`decode/events.ts`, `decode/anchorEvents.ts`, and `events.rs`
of each program).

Anchor is not part of the repository. What it yields of an emitted event is `coded`: one
entry for each field of the Rust struct, an integer up to 32 bits as a number and a longer
one as a `BN`, a key as a `PublicKey`, a byte array as an array of numbers. Names come as
the Rust source has them or in camel case.
-/

namespace IceMarkets.Indexer

open PegDesk (symbolLen)

/-! ### Emitted events -/

/-- The `CommodityCreated` event; `create_commodity` has checked the symbol. -/
structure CommodityCreated where
  commodity : Pubkey
  symbol : Vector UInt8 symbolLen
  mint : Pubkey
  valid : PegDesk.validateSymbol symbol = true
  deriving DecidableEq, Repr

/-- The `StatusChanged` event. -/
structure StatusChanged where
  commodity : Pubkey
  status : UInt8
  deriving DecidableEq, Repr

/-- The `PoolRegistered` event. -/
structure PoolRegistered where
  pool : Pubkey
  baseMint : Pubkey
  quoteMint : Pubkey
  commodity : Pubkey
  feeBps : UInt16
  deriving DecidableEq, Repr

/-- The `MigrationRecorded` event. -/
structure MigrationRecorded where
  pool : Pubkey
  dammPool : Pubkey
  deriving DecidableEq, Repr

/-- The `Buyback` event. -/
structure BuybackEvent where
  coin : Pubkey
  coinAmount : UInt64
  usdcOut : UInt64
  iceBurned : UInt64
  rate : UInt64
  anchor : UInt64
  deriving DecidableEq, Repr

/-- An event of a stored kind, as a program emits it. -/
inductive Emitted
  | commodityCreated (e : CommodityCreated)
  | trade (e : PegDesk.Trade)
  | priceUpdated (e : PegDesk.PriceUpdated)
  | statusChanged (e : StatusChanged)
  | poolRegistered (e : PoolRegistered)
  | feesClaimed (e : FeeRouter.FeesClaimed)
  | feesSplit (e : FeeRouter.FeesSplit)
  | migrationRecorded (e : MigrationRecorded)
  | epochOpened (e : Distributor.EpochOpened)
  | payout (e : Distributor.Payout)
  | epochFinalized (e : Distributor.EpochFinalized)
  | buyback (e : BuybackEvent)
  deriving DecidableEq, Repr

/-- `SIDE_BUY` and `SIDE_SELL`. -/
def sideByte : PegDesk.Side → Nat
  | .buy => 0
  | .sell => 1

/-- `SOURCE_DBC`, `SOURCE_SURPLUS` and `SOURCE_DAMM`. -/
def sourceByte : FeeRouter.FeeSource → Nat
  | .dbc => 0
  | .surplus => 1
  | .damm => 2

/-- `PAYOUT_PUSH` and `PAYOUT_CLAIM`. -/
def payoutByte : Distributor.PayoutKind → Nat
  | .push => 0
  | .claim => 1

/-! ### Anchor's form -/

inductive ProgramName
  | pegDesk
  | feeRouter
  | distributor
  | buyback
  deriving DecidableEq, Repr

/-- What Anchor makes of a field's value. A `PublicKey` is known by its base58 text. -/
inductive JsValue
  | number (n : Int)
  | bn (n : Int)
  | publicKey (base58 : String)
  | array (bytes : List UInt8)
  deriving DecidableEq, Repr

/-- Anchor's decoded event, before typing. -/
structure RawAnchorEvent where
  program : ProgramName
  name : String
  data : List (String × JsValue)
  deriving DecidableEq, Repr

/-- A field of an event struct: its name in Rust, that name in camel case, and its value. -/
structure Field where
  snake : String
  camel : String
  value : JsValue

/-- The names Anchor may give to events and fields. -/
structure Casing where
  camelEvents : Bool
  camelFields : Bool

namespace Emitted

variable (base58 : Pubkey → String)

def program : Emitted → ProgramName
  | commodityCreated _ | trade _ | priceUpdated _ | statusChanged _ => .pegDesk
  | poolRegistered _ | feesClaimed _ | feesSplit _ | migrationRecorded _ => .feeRouter
  | epochOpened _ | payout _ | epochFinalized _ => .distributor
  | buyback _ => .buyback

/-- The struct's name in Rust. -/
def name : Emitted → String
  | commodityCreated _ => "CommodityCreated"
  | trade _ => "Trade"
  | priceUpdated _ => "PriceUpdated"
  | statusChanged _ => "StatusChanged"
  | poolRegistered _ => "PoolRegistered"
  | feesClaimed _ => "FeesClaimed"
  | feesSplit _ => "FeesSplit"
  | migrationRecorded _ => "MigrationRecorded"
  | epochOpened _ => "EpochOpened"
  | payout _ => "Payout"
  | epochFinalized _ => "EpochFinalized"
  | buyback _ => "Buyback"

/-- The struct's name in camel case. -/
def camelName : Emitted → String
  | commodityCreated _ => "commodityCreated"
  | trade _ => "trade"
  | priceUpdated _ => "priceUpdated"
  | statusChanged _ => "statusChanged"
  | poolRegistered _ => "poolRegistered"
  | feesClaimed _ => "feesClaimed"
  | feesSplit _ => "feesSplit"
  | migrationRecorded _ => "migrationRecorded"
  | epochOpened _ => "epochOpened"
  | payout _ => "payout"
  | epochFinalized _ => "epochFinalized"
  | buyback _ => "buyback"

/-- The struct's fields. -/
def fields : Emitted → List Field
  | commodityCreated e => [
      ⟨"commodity", "commodity", .publicKey (base58 e.commodity)⟩,
      ⟨"symbol", "symbol", .array e.symbol.toList⟩,
      ⟨"mint", "mint", .publicKey (base58 e.mint)⟩]
  | trade e => [
      ⟨"commodity", "commodity", .publicKey (base58 e.commodity)⟩,
      ⟨"user", "user", .publicKey (base58 e.user)⟩,
      ⟨"side", "side", .number (sideByte e.side)⟩,
      ⟨"usdc", "usdc", .bn e.usdc.toNat⟩,
      ⟨"coin", "coin", .bn e.coin.toNat⟩,
      ⟨"price", "price", .bn e.price.toNat⟩,
      ⟨"spread_bps", "spreadBps", .number e.spreadBps.toNat⟩]
  | priceUpdated e => [
      ⟨"commodity", "commodity", .publicKey (base58 e.commodity)⟩,
      ⟨"price", "price", .bn e.price.toNat⟩,
      ⟨"conf", "conf", .bn e.conf.toNat⟩,
      ⟨"publish_time", "publishTime", .bn e.publishTime⟩]
  | statusChanged e => [
      ⟨"commodity", "commodity", .publicKey (base58 e.commodity)⟩,
      ⟨"status", "status", .number e.status.toNat⟩]
  | poolRegistered e => [
      ⟨"pool", "pool", .publicKey (base58 e.pool)⟩,
      ⟨"base_mint", "baseMint", .publicKey (base58 e.baseMint)⟩,
      ⟨"quote_mint", "quoteMint", .publicKey (base58 e.quoteMint)⟩,
      ⟨"commodity", "commodity", .publicKey (base58 e.commodity)⟩,
      ⟨"fee_bps", "feeBps", .number e.feeBps.toNat⟩]
  | feesClaimed e => [
      ⟨"pool", "pool", .publicKey (base58 e.pool)⟩,
      ⟨"source", "source", .number (sourceByte e.source)⟩,
      ⟨"quote_amount", "quoteAmount", .bn e.quoteAmount.toNat⟩,
      ⟨"base_amount", "baseAmount", .bn e.baseAmount.toNat⟩]
  | feesSplit e => [
      ⟨"pool", "pool", .publicKey (base58 e.pool)⟩,
      ⟨"holders", "holders", .bn e.holders.toNat⟩,
      ⟨"buyback", "buyback", .bn e.buyback.toNat⟩,
      ⟨"protocol", "protocol", .bn e.protocol.toNat⟩]
  | migrationRecorded e => [
      ⟨"pool", "pool", .publicKey (base58 e.pool)⟩,
      ⟨"damm_pool", "dammPool", .publicKey (base58 e.dammPool)⟩]
  | epochOpened e => [
      ⟨"pool", "pool", .publicKey (base58 e.pool)⟩,
      ⟨"index", "index", .number e.index.toNat⟩,
      ⟨"total", "total", .bn e.total.toNat⟩,
      ⟨"holders", "holders", .number e.holders.toNat⟩]
  | payout e => [
      ⟨"pool", "pool", .publicKey (base58 e.pool)⟩,
      ⟨"epoch", "epoch", .publicKey (base58 e.epoch)⟩,
      ⟨"wallet", "wallet", .publicKey (base58 e.wallet)⟩,
      ⟨"coin_mint", "coinMint", .publicKey (base58 e.coinMint)⟩,
      ⟨"amount", "amount", .bn e.amount.toNat⟩,
      ⟨"kind", "kind", .number (payoutByte e.kind)⟩]
  | epochFinalized e => [
      ⟨"pool", "pool", .publicKey (base58 e.pool)⟩,
      ⟨"index", "index", .number e.index.toNat⟩,
      ⟨"merkle_root", "merkleRoot", .array e.merkleRoot.bytes⟩,
      ⟨"remainder", "remainder", .bn e.remainder.toNat⟩]
  | buyback e => [
      ⟨"coin", "coin", .publicKey (base58 e.coin)⟩,
      ⟨"coin_amount", "coinAmount", .bn e.coinAmount.toNat⟩,
      ⟨"usdc_out", "usdcOut", .bn e.usdcOut.toNat⟩,
      ⟨"ice_burned", "iceBurned", .bn e.iceBurned.toNat⟩,
      ⟨"rate", "rate", .bn e.rate.toNat⟩,
      ⟨"anchor", "anchor", .bn e.anchor.toNat⟩]

/-- What Anchor decodes of an emitted event. -/
def coded (casing : Casing) (e : Emitted) : RawAnchorEvent where
  program := e.program
  name := if casing.camelEvents then e.camelName else e.name
  data := (e.fields base58).map fun f => (if casing.camelFields then f.camel else f.snake, f.value)

end Emitted

/-! ### Field accessors -/

/-- `snake.replace(/_([a-z0-9])/g, …)`, on characters. -/
def camelChars : List Char → List Char
  | '_' :: c :: cs =>
      if c.isLower || c.isDigit then c.toUpper :: camelChars cs else '_' :: camelChars (c :: cs)
  | c :: cs => c :: camelChars cs
  | [] => []

def camel (snake : String) : String := String.ofList (camelChars snake.toList)

def field (data : List (String × JsValue)) (snake : String) : Except String JsValue :=
  match data.lookup snake with
  | some v => .ok v
  | none =>
      match data.lookup (camel snake) with
      | some v => .ok v
      | none => .error ("event field \"" ++ snake ++ "\" missing (have: " ++
          ", ".intercalate (data.map (·.1)) ++ ")")

/-- `String(v)`. -/
def JsValue.text : JsValue → String
  | number n => toString n
  | bn n => toString n
  | publicKey base58 => base58
  | array bytes => ",".intercalate (bytes.map fun b => toString b.toNat)

/-- `BigInt(s)` of a text without blanks or a radix prefix: digits, or nothing. -/
def bigIntOfText (s : String) : Except String Int :=
  if s = "" then .ok 0
  else if s.toList.all Char.isDigit then
    .ok (s.toList.foldl (fun n c => 10 * n + (c.toNat - '0'.toNat : Nat)) 0)
  else .error ("Cannot convert " ++ s ++ " to a BigInt")

def asBigInt : JsValue → Except String Int
  | .number n => .ok n
  | .bn n => .ok n
  | .publicKey base58 => bigIntOfText base58
  | .array bytes => bigIntOfText (JsValue.array bytes).text

def asNumber (v : JsValue) : Except String Int := do
  let n ← asBigInt v
  .ok (JsNumber.toNumber n)

def asKey : JsValue → Except String String
  | .publicKey base58 => .ok base58
  | v => .error ("not a pubkey: " ++ v.text)

def asBytes : JsValue → Except String (List UInt8)
  | .array bytes => .ok bytes
  | v => .error ("not a byte array: " ++ v.text)

def hexDigit (n : Nat) : Char := "0123456789abcdef".toList.getD n '0'

def bytesToHex (bytes : List UInt8) : String :=
  String.ofList (bytes.flatMap fun b => [hexDigit (b.toNat / 16), hexDigit (b.toNat % 16)])

/-- A NUL-padded symbol's text. -/
def symbolFromBytes (bytes : List UInt8) : String :=
  String.ofList ((bytes.takeWhile (· ≠ 0)).map fun b => Char.ofNat b.toNat)

def oneOf (v : Int) (allowed : List Int) (what : String) : Except String Int :=
  if v ∈ allowed then .ok v else .error (what ++ ": unexpected value " ++ toString v)

/-! ### Conversion -/

inductive IcemarketsEvent
  | commodityCreated (commodity symbol mint : String)
  | trade (commodity user : String) (side usdc coin price spreadBps : Int)
  | priceUpdated (commodity : String) (price conf publishTime : Int)
  | statusChanged (commodity : String) (status : Int)
  | poolRegistered (pool baseMint quoteMint commodity : String) (feeBps : Int)
  | feesClaimed (pool : String) (source quoteAmount baseAmount : Int)
  | feesSplit (pool : String) (holders buyback protocol : Int)
  | migrationRecorded (pool dammPool : String)
  | epochOpened (pool : String) (index total holders : Int)
  | payout (pool epoch wallet coinMint : String) (amount payoutKind : Int)
  | epochFinalized (pool : String) (index : Int) (merkleRoot : String) (remainder : Int)
  | buyback (coin : String) (coinAmount gldAmount iceBurned : Int)
  deriving DecidableEq, Repr

/-- The `program` every case of the union carries. -/
def IcemarketsEvent.program : IcemarketsEvent → ProgramName
  | commodityCreated .. | trade .. | priceUpdated .. | statusChanged .. => .pegDesk
  | poolRegistered .. | feesClaimed .. | feesSplit .. | migrationRecorded .. => .feeRouter
  | epochOpened .. | payout .. | epochFinalized .. => .distributor
  | buyback .. => .buyback

/-- The Rust struct's name, from either spelling. -/
def canonicalName (name : String) : String :=
  match name.toList with
  | c :: cs => String.ofList (c.toUpper :: cs)
  | [] => name

/-- None for an event the indexer does not store. -/
def toIcemarketsEvent (ev : RawAnchorEvent) : Except String (Option IcemarketsEvent) :=
  let d := ev.data
  match ev.program, canonicalName ev.name with
  | .pegDesk, "CommodityCreated" => do
      let commodity ← field d "commodity" >>= asKey
      let symbol ← field d "symbol" >>= asBytes
      let mint ← field d "mint" >>= asKey
      .ok (some (.commodityCreated commodity (symbolFromBytes symbol) mint))
  | .pegDesk, "Trade" => do
      let commodity ← field d "commodity" >>= asKey
      let user ← field d "user" >>= asKey
      let side ← field d "side" >>= asNumber
      let side ← oneOf side [0, 1] "Trade.side"
      let usdc ← field d "usdc" >>= asBigInt
      let coin ← field d "coin" >>= asBigInt
      let price ← field d "price" >>= asBigInt
      let spreadBps ← field d "spread_bps" >>= asNumber
      .ok (some (.trade commodity user side usdc coin price spreadBps))
  | .pegDesk, "PriceUpdated" => do
      let commodity ← field d "commodity" >>= asKey
      let price ← field d "price" >>= asBigInt
      let conf ← field d "conf" >>= asBigInt
      let publishTime ← field d "publish_time" >>= asBigInt
      .ok (some (.priceUpdated commodity price conf publishTime))
  | .pegDesk, "StatusChanged" => do
      let commodity ← field d "commodity" >>= asKey
      let status ← field d "status" >>= asNumber
      .ok (some (.statusChanged commodity status))
  | .feeRouter, "PoolRegistered" => do
      let pool ← field d "pool" >>= asKey
      let baseMint ← field d "base_mint" >>= asKey
      let quoteMint ← field d "quote_mint" >>= asKey
      let commodity ← field d "commodity" >>= asKey
      let feeBps ← field d "fee_bps" >>= asNumber
      .ok (some (.poolRegistered pool baseMint quoteMint commodity feeBps))
  | .feeRouter, "FeesClaimed" => do
      let pool ← field d "pool" >>= asKey
      let source ← field d "source" >>= asNumber
      let source ← oneOf source [0, 1, 2] "FeesClaimed.source"
      let quoteAmount ← field d "quote_amount" >>= asBigInt
      let baseAmount ← field d "base_amount" >>= asBigInt
      .ok (some (.feesClaimed pool source quoteAmount baseAmount))
  | .feeRouter, "FeesSplit" => do
      let pool ← field d "pool" >>= asKey
      let holders ← field d "holders" >>= asBigInt
      let buyback ← field d "buyback" >>= asBigInt
      let protocol ← field d "protocol" >>= asBigInt
      .ok (some (.feesSplit pool holders buyback protocol))
  | .feeRouter, "MigrationRecorded" => do
      let pool ← field d "pool" >>= asKey
      let dammPool ← field d "damm_pool" >>= asKey
      .ok (some (.migrationRecorded pool dammPool))
  | .distributor, "EpochOpened" => do
      let pool ← field d "pool" >>= asKey
      let index ← field d "index" >>= asNumber
      let total ← field d "total" >>= asBigInt
      let holders ← field d "holders" >>= asNumber
      .ok (some (.epochOpened pool index total holders))
  | .distributor, "Payout" => do
      let pool ← field d "pool" >>= asKey
      let epoch ← field d "epoch" >>= asKey
      let wallet ← field d "wallet" >>= asKey
      let coinMint ← field d "coin_mint" >>= asKey
      let amount ← field d "amount" >>= asBigInt
      let kind ← field d "kind" >>= asNumber
      let payoutKind ← oneOf kind [0, 1] "Payout.kind"
      .ok (some (.payout pool epoch wallet coinMint amount payoutKind))
  | .distributor, "EpochFinalized" => do
      let pool ← field d "pool" >>= asKey
      let index ← field d "index" >>= asNumber
      let merkleRoot ← field d "merkle_root" >>= asBytes
      let remainder ← field d "remainder" >>= asBigInt
      .ok (some (.epochFinalized pool index (bytesToHex merkleRoot) remainder))
  | .buyback, "Buyback" => do
      let coin ← field d "coin" >>= asKey
      let coinAmount ← field d "coin_amount" >>= asBigInt
      let gldAmount ← field d "gld_amount" >>= asBigInt
      let iceBurned ← field d "ice_burned" >>= asBigInt
      .ok (some (.buyback coin coinAmount gldAmount iceBurned))
  | _, _ => .ok none

/-- `decodeAnchorEvents`: what the parsers of the programs whose IDL is present read off the
logs, typed. An event that cannot be typed is logged and left out. -/
def decodeAnchorEvents (loaded : List ProgramName) (parseLogs : ProgramName → List RawAnchorEvent) :
    List IcemarketsEvent :=
  loaded.flatMap fun program => (parseLogs program).filterMap fun raw =>
    match toIcemarketsEvent raw with
    | .ok typed => typed
    | .error _ => none

end IceMarkets.Indexer
