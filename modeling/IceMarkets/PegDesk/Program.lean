import IceMarkets.PegDesk.Admin
import IceMarkets.PegDesk.Run

/-!
# IceMarkets.PegDesk.Program

The whole program: its config and all its commodities, over runs of every instruction,
by any signer and with any arguments.

Accounts that the program owns are the program's: an instruction may be given any
accounts, but one that the program owns holds what the program last wrote to it
(`Program.Genuine`). Tokens may also move without the program: anyone may send to a
reserve vault, and holders may burn.
-/

namespace IceMarkets.PegDesk

open Lts

/-! ### State -/

/-- The accounts of one commodity. -/
structure Market where
  commodity : Commodity
  coinMint : Mint
  reserveVault : TokenAccount
  keeperPrice : Option KeeperPrice
  deriving DecidableEq, Repr

/-- The program's accounts; a commodity's are found under its address. -/
structure Program where
  config : GlobalConfig
  markets : Pubkey → Option Market

namespace Program

variable (s : Program)

/-- The accounts a trade on a commodity is given. -/
def desk (key : Pubkey) (m : Market) : Desk where
  config := s.config
  commodityKey := key
  commodity := m.commodity
  coinMint := m.coinMint
  reserveVault := m.reserveVault

/-- Store a commodity's accounts. -/
def put (key : Pubkey) (m : Market) : Program :=
  { s with markets := Function.update s.markets key (some m) }

@[simp] theorem put_config (key : Pubkey) (m : Market) : (s.put key m).config = s.config := rfl

@[simp] theorem put_markets_self (key : Pubkey) (m : Market) :
    (s.put key m).markets key = some m := by
  simp [put]

theorem put_markets_ne {key key' : Pubkey} (h : key' ≠ key) (m : Market) :
    (s.put key m).markets key' = s.markets key' := by
  simp [put, h]

/-- A program-owned account holds what the program wrote to it. -/
structure Holds (env : Env) (info : AccountInfo) : Prop where
  commodity : info.owner = env.programId → ∀ c, info.data = .commodity c →
    ∃ m, s.markets info.key = some m ∧ m.commodity = c
  keeperPrice : info.owner = env.programId → ∀ kp, info.data = .keeperPrice kp →
    ∃ key m, s.markets key = some m ∧ m.keeperPrice = some kp

/-- The accounts an instruction is given are genuine. -/
def Genuine (env : Env) (infos : List AccountInfo) : Prop := ∀ info ∈ infos, s.Holds env info

end Program

/-- The accounts of a market after a trade. -/
def Market.withDesk (m : Market) (d : Desk) : Market :=
  { m with commodity := d.commodity, coinMint := d.coinMint, reserveVault := d.reserveVault }

/-- The oracle accounts a trade is given. -/
def OracleAccounts.infos (accts : OracleAccounts) : List AccountInfo :=
  accts.priceFeed.toList ++ accts.fxFeed.toList ++ accts.keeperPrice.toList ++ accts.remaining

/-! ### One step -/

/-- What an instruction did. -/
inductive Act
  | traded (key : Pubkey) (x : TradeInput) (t : Trade)
  | deposited (key : Pubkey)
  | swept (key : Pubkey)
  | posted (key : Pubkey)
  | created (key : Pubkey)
  | configured
  | reconfigured (key : Pubkey)
  | moved (key : Pubkey)

/-- An instruction's signer and what it did. -/
structure Signed where
  signer : Pubkey
  act : Act

/-- An accepted trade, through any of the three handlers. -/
inductive Trades (env : Env) (d : Desk) (x : TradeInput) (out : TradeOutcome) : Prop
  | buy {usdcIn minCoinOut : UInt64} (h : handleBuy env d x usdcIn minCoinOut = .ok out)
  | buyExactOut {coinOut maxUsdcIn : UInt64}
      (h : handleBuyExactOut env d x coinOut maxUsdcIn = .ok out)
  | sell {coinIn minUsdcOut : UInt64} (h : handleSell env d x coinIn minUsdcOut = .ok out)

/-- An accepted change of the config. -/
inductive Configures (config : GlobalConfig) (signer : Pubkey) (config' : GlobalConfig) : Prop
  | setKeepers {keepers : List Pubkey} (h : handleSetKeepers config signer keepers = .ok config')
  | proposeAdmin {newAdmin : Pubkey} (h : handleProposeAdmin config signer newAdmin = .ok config')
  | acceptAdmin (h : handleAcceptAdmin config signer = .ok config')
  | setGlobalPause {paused : Bool} (h : handleSetGlobalPause config signer paused = .ok config')
  | setRedeemCapExempt {exempt : Pubkey}
      (h : handleSetRedeemCapExempt config signer exempt = .ok config')

/-- An accepted change of a commodity's terms. -/
inductive Reconfigures (env : Env) (s : Program) (signer key : Pubkey) (c c' : Commodity) : Prop
  | setCommodityParams {args : SetParamsArgs}
      (h : handleSetCommodityParams s.config signer c args = .ok c')
  | setFeedAccount {feedAccount fxFeedAccount : Pubkey}
      (h : handleSetFeedAccount s.config signer c feedAccount fxFeedAccount = .ok c')
  | clearPriceAnchor (h : handleClearPriceAnchor s.config signer c = .ok c')
  | setStatus {status : UInt8} (h : handleSetStatus s.config signer c status = .ok c')
  | setIndexLegs {legs : List IndexLeg} {remaining : List AccountInfo}
      (hacc : s.Genuine env remaining)
      (h : handleSetIndexLegs env s.config signer key c legs remaining = .ok c')

/-- An accepted instruction, or a movement of tokens without the program. -/
inductive ProgramStep (env : Env) (s : Program) : Signed → Program → Prop
  | trade {key : Pubkey} {m : Market} {x : TradeInput} {out : TradeOutcome}
      (hm : s.markets key = some m) (hacc : s.Genuine env x.oracle.infos)
      (h : Trades env (s.desk key m) x out) :
      ProgramStep env s ⟨x.user, .traded key x out.trade⟩ (s.put key (m.withDesk out.desk))
  | depositReserve {key depositor : Pubkey} {m : Market} {src : TokenAccount} {amount : UInt64}
      {d' : Desk} {ev : ReserveDeposited} (hm : s.markets key = some m)
      (h : handleDepositReserve (s.desk key m) depositor src amount = .ok (d', ev)) :
      ProgramStep env s ⟨depositor, .deposited key⟩ (s.put key (m.withDesk d'))
  | sweepSpreadFees {key authority : Pubkey} {m : Market} {now : Int} {treasuryUsdc : TokenAccount}
      {amount : UInt64} {d' : Desk} {ev : SpreadFeesSwept} (hm : s.markets key = some m)
      (h : handleSweepSpreadFees (s.desk key m) now authority treasuryUsdc amount = .ok (d', ev)) :
      ProgramStep env s ⟨authority, .swept key⟩ (s.put key (m.withDesk d'))
  | keeperUpdatePrice {key : Pubkey} {m : Market} {x : Post} {kp : KeeperPrice} {ev : PriceUpdated}
      (hm : s.markets key = some m)
      (h : handleKeeperUpdatePrice s.config key m.commodity.oracleKind m.keeperPrice x =
        .ok (kp, ev)) :
      ProgramStep env s ⟨x.keeper, .posted key⟩ (s.put key { m with keeperPrice := some kp })
  | setKeeperBounds {key admin : Pubkey} {m : Market} {kp kp' : KeeperPrice} {maxMove : UInt16}
      {minInterval : UInt32} (hm : s.markets key = some m) (hkp : m.keeperPrice = some kp)
      (h : handleSetKeeperBounds s.config admin kp maxMove minInterval = .ok kp') :
      ProgramStep env s ⟨admin, .reconfigured key⟩ (s.put key { m with keeperPrice := some kp' })
  | createCommodity {key admin coinMint reserveVault : Pubkey} {args : CreateCommodityArgs}
      {c : Commodity} (hm : s.markets key = none)
      (h : handleCreateCommodity s.config admin s.config.reserveMint coinMint reserveVault args =
        .ok c) :
      ProgramStep env s ⟨admin, .created key⟩
        (s.put key { commodity := c, coinMint := { supply := 0 }
                     reserveVault := { mint := s.config.reserveMint, owner := key, amount := 0 }
                     keeperPrice := none })
  | configure {signer : Pubkey} {config' : GlobalConfig} (h : Configures s.config signer config') :
      ProgramStep env s ⟨signer, .configured⟩ { s with config := config' }
  | reconfigure {key signer : Pubkey} {m : Market} {c' : Commodity} (hm : s.markets key = some m)
      (h : Reconfigures env s signer key m.commodity c') :
      ProgramStep env s ⟨signer, .reconfigured key⟩ (s.put key { m with commodity := c' })
  /-- A transfer to a reserve vault, or a holder's burn. -/
  | move {key signer : Pubkey} {m : Market} {supply amount : UInt64} (hm : s.markets key = some m)
      (hsupply : supply ≤ m.coinMint.supply) (hamount : m.reserveVault.amount ≤ amount) :
      ProgramStep env s ⟨signer, .moved key⟩
        (s.put key { m with coinMint := { supply },
                            reserveVault := { m.reserveVault with amount } })

/-- A run of the program. -/
abbrev ProgramRun (env : Env) : Program → List Signed → Program → Prop := Run (ProgramStep env)

/-- The program before its first commodity. -/
def Program.Fresh (s : Program) : Prop := ∀ key, s.markets key = none

/-! ### What a step does to one commodity -/

section Inversion

variable {env : Env} {s s' : Program} {e : Signed}

/-- What a step can do to the commodity at an address: nothing, trade on it, write its cached
balance, create it, or change its terms. -/
inductive MarketStep (env : Env) (s s' : Program) (key : Pubkey) : Option Market → Market → Prop
  | keep {m : Market} : MarketStep env s s' key (some m) m
  | trade {m : Market} {x : TradeInput} {out : TradeOutcome}
      (h : Trades env (s.desk key m) x out) :
      MarketStep env s s' key (some m) (m.withDesk out.desk)
  | cache {m m' : Market} {cached : UInt64}
      (h : m'.commodity = { m.commodity with reserveBalanceCached := cached }) :
      MarketStep env s s' key (some m) m'
  | reconfigure {m : Market} {signer : Pubkey} {c' : Commodity}
      (h : Reconfigures env s signer key m.commodity c') :
      MarketStep env s s' key (some m) { m with commodity := c' }
  | create {m : Market} {admin coinMint reserveVault : Pubkey} {args : CreateCommodityArgs}
      (h : handleCreateCommodity s.config admin s.config.reserveMint coinMint reserveVault args =
        .ok m.commodity) :
      MarketStep env s s' key none m

/-- A market is stored where it was; every other stays. -/
theorem MarketStep.of_put {key key' : Pubkey} {m m' : Market}
    (hself : MarketStep env s (s.put key m) key (s.markets key) m)
    (h : (s.put key m).markets key' = some m') :
    MarketStep env s (s.put key m) key' (s.markets key') m' := by
  by_cases hkey : key' = key
  · subst hkey
    rw [Program.put_markets_self] at h
    cases h
    exact hself
  · rw [Program.put_markets_ne s hkey] at h
    rw [h]
    exact .keep

/-- Invert a step at one commodity. -/
theorem ProgramStep.market (h : ProgramStep env s e s') {key : Pubkey} {m' : Market}
    (hm' : s'.markets key = some m') : MarketStep env s s' key (s.markets key) m' := by
  cases h with
  | trade hm _ h =>
      refine .of_put ?_ hm'
      rw [hm]
      exact .trade h
  | depositReserve hm h =>
      refine .of_put ?_ hm'
      rw [hm]
      exact .cache (handleDepositReserve_ok h).commodity
  | sweepSpreadFees hm h =>
      refine .of_put ?_ hm'
      rw [hm]
      exact .cache (handleSweepSpreadFees_ok h).commodity
  | @keeperUpdatePrice _ m _ _ _ hm _ =>
      refine .of_put ?_ hm'
      rw [hm]
      exact .cache (rfl : m.commodity = { m.commodity with
        reserveBalanceCached := m.commodity.reserveBalanceCached })
  | @setKeeperBounds _ _ m _ _ _ _ hm _ _ =>
      refine .of_put ?_ hm'
      rw [hm]
      exact .cache (rfl : m.commodity = { m.commodity with
        reserveBalanceCached := m.commodity.reserveBalanceCached })
  | createCommodity hm h =>
      refine .of_put ?_ hm'
      rw [hm]
      exact .create h
  | configure _ =>
      have hkeep : s.markets key = some m' := hm'
      rw [hkeep]
      exact .keep
  | reconfigure hm h =>
      refine .of_put ?_ hm'
      rw [hm]
      exact .reconfigure h
  | @move _ _ m _ _ hm _ _ =>
      refine .of_put ?_ hm'
      rw [hm]
      exact .cache (rfl : m.commodity = { m.commodity with
        reserveBalanceCached := m.commodity.reserveBalanceCached })

end Inversion

/-! ### The config from its start -/

/-- The program as `initialize_config` leaves it. -/
structure Program.Initialized (s : Program) : Prop where
  fresh : s.Fresh
  config : ∃ upgradeAuthority payer reserveMint treasury decimals maxConf reserveWarn reserveHalt,
    handleInitializeConfig upgradeAuthority payer reserveMint treasury decimals maxConf
      reserveWarn reserveHalt = .ok s.config

/-- What a config keeps: the bounds it started with are in range, and the default key is no
keeper. -/
structure GlobalConfig.Valid (c : GlobalConfig) : Prop where
  conf : 0 < c.maxConfBps ∧ c.maxConfBps.toNat ≤ bps
  reserve : c.reserveHaltBps ≤ c.reserveWarnBps
  keepers : c.isKeeper Pubkey.default = false

theorem handleInitializeConfig_valid {upgradeAuthority : Option Pubkey}
    {payer reserveMint treasury : Pubkey} {decimals : UInt8}
    {maxConf reserveWarn reserveHalt : UInt16} {c : GlobalConfig}
    (h : handleInitializeConfig upgradeAuthority payer reserveMint treasury decimals maxConf
      reserveWarn reserveHalt = .ok c) : c.Valid := by
  unfold handleInitializeConfig at h
  obtain ⟨-, h⟩ := require_bind_eq_ok.mp h
  obtain ⟨-, h⟩ := require_bind_eq_ok.mp h
  obtain ⟨hconf, h⟩ := require_bind_eq_ok.mp h
  obtain ⟨hreserve, h⟩ := require_bind_eq_ok.mp h
  cases h
  exact ⟨hconf, hreserve, by simp [GlobalConfig.isKeeper]⟩

/-- The keys stored for some keepers are these. -/
theorem mem_of_mem_keeperArray {keepers : List Pubkey} {n : Nat} (hn : n ≤ keepers.length)
    {key : Pubkey} (h : key ∈ (keeperArray keepers).toList.take n) : key ∈ keepers := by
  obtain ⟨i, hi, rfl⟩ := List.mem_iff_getElem.mp h
  rw [List.length_take] at hi
  have hlt : i < keepers.length := by omega
  have hentry : ((keeperArray keepers).toList.take n)[i] = keepers[i] := by
    simp [keeperArray, List.getElem?_eq_getElem hlt]
  rw [hentry]
  exact List.getElem_mem hlt

theorem Configures.valid {config config' : GlobalConfig} {signer : Pubkey}
    (h : Configures config signer config') (hvalid : config.Valid) : config'.Valid := by
  cases h with
  | @setKeepers keepers h =>
      obtain ⟨-, h⟩ := require_bind_eq_ok.mp h
      obtain ⟨hlength, h⟩ := require_bind_eq_ok.mp h
      obtain ⟨hkeys, h⟩ := require_bind_eq_ok.mp h
      cases h
      refine ⟨hvalid.conf, hvalid.reserve, ?_⟩
      have hcount : (UInt8.ofNat keepers.length).toNat = keepers.length := by
        rw [UInt8.toNat_ofNat', Nat.mod_eq_of_lt]
        unfold maxKeepers at hlength
        omega
      unfold GlobalConfig.isKeeper
      rw [Bool.eq_false_iff, Ne, List.any_eq_true]
      intro hany
      obtain ⟨key, hkey, hdefault⟩ := hany
      rw [decide_eq_true_iff] at hdefault
      rw [hdefault, hcount] at hkey
      exact hkeys.1 (mem_of_mem_keeperArray (min_le_left _ _) hkey)
  | proposeAdmin h =>
      obtain ⟨-, h⟩ := require_bind_eq_ok.mp h
      cases h
      exact ⟨hvalid.conf, hvalid.reserve, hvalid.keepers⟩
  | acceptAdmin h =>
      obtain ⟨-, h⟩ := require_bind_eq_ok.mp h
      obtain ⟨-, h⟩ := require_bind_eq_ok.mp h
      cases h
      exact ⟨hvalid.conf, hvalid.reserve, hvalid.keepers⟩
  | setGlobalPause h =>
      unfold handleSetGlobalPause at h
      split at h
      all_goals
        obtain ⟨_, -, h⟩ := bind_eq_ok.mp h
        cases h
        exact ⟨hvalid.conf, hvalid.reserve, hvalid.keepers⟩
  | setRedeemCapExempt h =>
      obtain ⟨-, h⟩ := require_bind_eq_ok.mp h
      cases h
      exact ⟨hvalid.conf, hvalid.reserve, hvalid.keepers⟩

/-- Every config of a run from `initialize_config` is valid. -/
theorem ProgramRun.config_valid {env : Env} {s s' : Program} {tr : List Signed}
    (h : ProgramRun env s tr s') (hinit : s.Initialized) : s'.config.Valid := by
  refine h.invariant (I := fun s => s.config.Valid) ?_ ?_
  · intro s e t hstep hvalid
    cases hstep with
    | configure h => exact h.valid hvalid
    | _ => exact hvalid
  · obtain ⟨_, _, _, _, _, _, _, _, hconfig⟩ := hinit.config
    exact handleInitializeConfig_valid hconfig

end IceMarkets.PegDesk
