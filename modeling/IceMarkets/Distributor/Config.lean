import IceMarkets.Distributor.State
import IceMarkets.RawAccount

/-!
# IceMarkets.Distributor.Config

The instructions on the distributor's config (`initialize.rs`): `initialize`, `set_keepers` and
`set_params`. Runs of an epoch take the config as it comes; here is who changes it and to what.
-/

namespace IceMarkets.Distributor

/-- The config `initialize` writes. -/
def handleInitialize (loader : Loader) (id : Pubkey) (program programData : RawAccount)
    (payer feeRouter : Pubkey) (maxPushPerEpochBps : UInt16) : DistResult DistConfig := do
  require (program.key = id) .notUpgradeAuthority
  requireUpgradeAuthority loader .notUpgradeAuthority program programData payer
  require (maxPushPerEpochBps.toNat ≤ bpsDenom) .invalidBps
  .ok {
    admin := payer, keepers := Vector.replicate maxKeepers Pubkey.default, keeperCount := 0
    feeRouter, maxPushPerEpochBps, paused := false }

def handleSetKeepers (c : DistConfig) (admin : Pubkey) (keepers : List Pubkey) :
    DistResult DistConfig := do
  require (c.admin = admin) .unauthorized
  require (keepers.length ≤ maxKeepers) .tooManyKeepers
  .ok { c with
    keepers := Vector.ofFn fun i => (keepers[i.val]?).getD Pubkey.default
    keeperCount := UInt8.ofNat keepers.length }

/-- The arguments of `set_params`; `none` leaves a field as it is. -/
structure SetParamsArgs where
  feeRouter : Option Pubkey
  maxPushPerEpochBps : Option UInt16
  paused : Option Bool
  newAdmin : Option Pubkey
  deriving DecidableEq, Repr

def handleSetParams (c : DistConfig) (admin : Pubkey) (args : SetParamsArgs) :
    DistResult DistConfig := do
  require (c.admin = admin) .unauthorized
  let c := { c with feeRouter := args.feeRouter.getD c.feeRouter }
  let c ← (match args.maxPushPerEpochBps with
    | some v => do
        require (v.toNat ≤ bpsDenom) .invalidBps
        .ok { c with maxPushPerEpochBps := v }
    | none => .ok c : DistResult DistConfig)
  let c := { c with paused := args.paused.getD c.paused }
  .ok { c with admin := args.newAdmin.getD c.admin }

/-! ### What an accepted config keeps -/

/-- The keepers are counted, and the push cap is a share of the whole. -/
structure DistConfig.Sound (c : DistConfig) : Prop where
  keeperCount_le : c.keeperCount.toNat ≤ maxKeepers
  cap_le : c.maxPushPerEpochBps.toNat ≤ bpsDenom

/-- An accepted instruction on the config, signed by `admin`. -/
inductive Configures (c : DistConfig) (admin : Pubkey) : DistConfig → Prop
  | setKeepers {keepers : List Pubkey} {c' : DistConfig}
      (h : handleSetKeepers c admin keepers = .ok c') : Configures c admin c'
  | setParams {args : SetParamsArgs} {c' : DistConfig}
      (h : handleSetParams c admin args = .ok c') : Configures c admin c'

variable {c c' : DistConfig} {admin : Pubkey}

theorem handleInitialize_sound {loader : Loader} {id payer feeRouter : Pubkey}
    {program programData : RawAccount} {bps : UInt16}
    (h : handleInitialize loader id program programData payer feeRouter bps = .ok c) :
    c.Sound ∧ c.admin = payer ∧ c.feeRouter = feeRouter := by
  unfold handleInitialize at h
  obtain ⟨-, h⟩ := require_bind_eq_ok.mp h
  obtain ⟨⟨⟩, -, h⟩ := bind_eq_ok.mp h
  obtain ⟨hbps, h⟩ := require_bind_eq_ok.mp h
  cases h
  exact ⟨⟨Nat.zero_le _, hbps⟩, rfl, rfl⟩

theorem Configures.signed (h : Configures c admin c') : c.admin = admin := by
  cases h with
  | setKeepers h => exact (require_bind_eq_ok.mp h).1
  | setParams h => exact (require_bind_eq_ok.mp h).1

theorem Configures.sound (h : Configures c admin c') (hc : c.Sound) : c'.Sound := by
  cases h with
  | @setKeepers keepers _ h =>
      obtain ⟨-, h⟩ := require_bind_eq_ok.mp h
      obtain ⟨hlen, h⟩ := require_bind_eq_ok.mp h
      cases h
      refine ⟨?_, hc.cap_le⟩
      have hmax : keepers.length < 2 ^ 8 := Nat.lt_of_le_of_lt hlen (by decide)
      rw [UInt8.toNat_ofNat', Nat.mod_eq_of_lt hmax]
      exact hlen
  | @setParams args _ h =>
      obtain ⟨-, h⟩ := require_bind_eq_ok.mp h
      obtain ⟨c₁, hc₁, h⟩ := bind_eq_ok.mp h
      cases h
      cases hbps : args.maxPushPerEpochBps with
      | none =>
          rw [hbps] at hc₁
          cases hc₁
          exact ⟨hc.keeperCount_le, hc.cap_le⟩
      | some v =>
          rw [hbps] at hc₁
          obtain ⟨hv, hc₁⟩ := require_bind_eq_ok.mp hc₁
          cases hc₁
          exact ⟨hc.keeperCount_le, hv⟩

end IceMarkets.Distributor
