import IceMarkets.Distributor.Config
import IceMarkets.Distributor.Moves
import IceMarkets.FeeRouter.Books

/-!
# IceMarkets.Payouts.System

Fees on their way to the holders: the fee router and the distributor, with all its epochs, on one
ledger. An epoch is opened with tokens that the router's `withdraw_for_epoch`, called by the
distributor, takes out of the pool's holder vault, or that a signer gives.

`IceMarkets.Distributor` is about one epoch, with the router as a parameter. Here its handlers
run on each epoch's accounts, and the parameter is the router itself.
-/

namespace IceMarkets.Payouts

open Distributor
open FeeRouter (RouterEnv RouterProgram Vault)

/-! ### Accounts -/

/-- The seeds of an epoch. -/
structure EpochId where
  pool : Pubkey
  index : UInt32
  deriving DecidableEq, Repr

/-- What surrounds the two programs: the addresses derived for them, and who signs. Of the
epochs and coins there are, derived addresses differ. -/
structure PayoutEnv where
  router : RouterEnv
  /-- The distributor's id. -/
  id : Pubkey
  tokenProgram : Pubkey
  /-- PDA `["epoch", pool, index]`. -/
  epochAddress : Pubkey → UInt32 → Pubkey
  /-- The associated token account of an owner, for a mint. -/
  ata : Pubkey → Pubkey → Pubkey
  /-- PDA `["pool", pool]` of a router. -/
  routerPoolState : Pubkey → Pubkey → Pubkey
  /-- PDA `["treasury", coin_mint]` of a router. -/
  routerTreasury : Pubkey → Pubkey → Pubkey
  keccak256 : List UInt8 → Bytes32
  isEpoch : EpochId → Pubkey → Bool
  /-- The keys that sign for themselves: no derived address of the two programs is among them. -/
  isSigner : Pubkey → Bool
  poolState_router : ∀ pool, routerPoolState router.id pool = router.poolKey pool
  treasury_router : ∀ mint, routerTreasury router.id mint = router.address (.treasury mint)
  ata_epoch : ∀ wallet mint pool index,
    ata wallet mint = ata (epochAddress pool index) mint → wallet = epochAddress pool index
  treasury_ne : ∀ router mint pool index,
    routerTreasury router mint ≠ ata (epochAddress pool index) mint
  vault_injective : ∀ id id' mint mint', isEpoch id mint = true → isEpoch id' mint' = true →
    ata (epochAddress id.pool id.index) mint = ata (epochAddress id'.pool id'.index) mint' →
      id = id' ∧ mint = mint'
  vault_ne : ∀ id mint v, isEpoch id mint = true → Vault.Known router v →
    ata (epochAddress id.pool id.index) mint ≠ router.address v
  signer_epoch : ∀ key pool index, isSigner key = true → key ≠ epochAddress pool index
  signer_router : ∀ key v, isSigner key = true → key ≠ Vault.authority router v
  signer_distAuth : ∀ key, isSigner key = true → key ≠ router.distAuth id
  ata_vault : ∀ wallet mint id mint', isSigner wallet = true → isEpoch id mint' = true →
    ata wallet mint ≠ ata (epochAddress id.pool id.index) mint'
  ata_router : ∀ wallet mint v, isSigner wallet = true → Vault.Known router v →
    ata wallet mint ≠ router.address v

namespace PayoutEnv

variable (env : PayoutEnv)

def epochKey (id : EpochId) : Pubkey := env.epochAddress id.pool id.index

/-- The associated account of an epoch. -/
def vault (id : EpochId) (mint : Pubkey) : Pubkey := env.ata (env.epochKey id) mint

end PayoutEnv

/-- The accounts of both programs; the ledger is the router's. -/
structure PayoutSystem where
  router : RouterProgram
  config : DistConfig
  epochs : EpochId → Option Epoch
  claimed : EpochId → List Claimed

namespace PayoutSystem

/-- What an instruction on one epoch sees. -/
def distribution (s : PayoutSystem) (id : EpochId) : Distribution where
  config := s.config
  epoch := s.epochs id
  claimed := s.claimed id
  ledger := s.router.ledger

/-- Write the accounts of one epoch back. -/
def store (s : PayoutSystem) (id : EpochId) (d : Distribution) : PayoutSystem where
  router := { s.router with ledger := d.ledger }
  config := s.config
  epochs := Function.update s.epochs id d.epoch
  claimed := Function.update s.claimed id d.claimed

end PayoutSystem

/-! ### The call of the router -/

/-- `withdraw_for_epoch` of the router, called with the distributor's PDA as signer and with the
vault of an epoch as destination. The router's constraints pin the other accounts. -/
def withdrawForEpoch (env : PayoutEnv) (r : RouterProgram) (id : EpochId) (mint : Pubkey)
    (call : RouterCall) (L : Ledger) : Option Ledger :=
  if call.feeRouterProgram = env.router.id ∧ call.routerConfig = env.router.key ∧
      call.poolState = env.router.poolKey id.pool ∧
      call.holderVault = env.router.address (.holder id.pool) then
    match FeeRouter.handleWithdrawForEpoch env.router { r with ledger := L }
        (env.router.distAuth env.id) id.pool (env.vault id mint) call.amount with
    | .ok (r', _) => some r'.ledger
    | .error _ => none
  else none

theorem withdrawForEpoch_ok {env : PayoutEnv} {r : RouterProgram} {id : EpochId} {mint : Pubkey}
    {call : RouterCall} {L L' : Ledger} (h : withdrawForEpoch env r id mint call L = some L') :
    env.router.distAuth env.id = env.router.distAuth r.programs.distributor ∧
      FeeRouter.WithdrawDone env.router { r with ledger := L } (.holder id.pool)
        (env.vault id mint) call.amount { r with ledger := L' } := by
  unfold withdrawForEpoch at h
  split_ifs at h
  split at h
  · next r' ev hr =>
      cases h
      obtain ⟨⟨-, -, hauth⟩, hdone⟩ := FeeRouter.handleWithdrawForEpoch_ok hr
      refine ⟨hauth, ?_⟩
      have hstate : r' = { r with ledger := r'.ledger } := hdone.state
      rwa [hstate] at hdone
  · cases h

/-- What surrounds one epoch while the router is in the state `r`. -/
def PayoutEnv.epoch (env : PayoutEnv) (r : RouterProgram) (id : EpochId) (mint : Pubkey) :
    EpochEnv where
  epochKey := env.epochKey id
  coinMint := mint
  vault := env.vault id mint
  tokenProgram := env.tokenProgram
  ata := fun wallet => env.ata wallet mint
  epochAddress := env.epochAddress
  routerPoolState := env.routerPoolState
  routerTreasury := fun router => env.routerTreasury router mint
  withdrawForEpoch := withdrawForEpoch env r id mint
  keccak256 := env.keccak256
  ata_ne_vault := fun wallet hne h => hne (env.ata_epoch wallet mint _ _ h)
  treasury_ne_vault := fun router => env.treasury_ne router mint _ _
  withdraw_holds := fun _ _ _ h _ _ hholds => (withdrawForEpoch_ok h).2.holds _ _ _ hholds

/-! ### Instructions -/

/-- Run an instruction's handler on the accounts of one epoch. -/
def onEpoch {α : Type} (s : PayoutSystem) (id : EpochId) (h : DistResult (Distribution × α)) :
    DistResult (PayoutSystem × α) := do
  let (d, ev) ← h
  .ok (s.store id d, ev)

/-- `has_one = coin_mint` on an epoch. -/
def loadCoinMint (s : PayoutSystem) (id : EpochId) : DistResult Pubkey := do
  let e ← loadEpoch (s.distribution id)
  .ok e.coinMint

def openEpoch (env : PayoutEnv) (s : PayoutSystem) (coinMint : Pubkey) (x : OpenEpochInput) :
    DistResult (PayoutSystem × EpochOpened) :=
  let id : EpochId := { pool := x.args.pool, index := x.args.index }
  onEpoch s id (handleOpenEpoch (env.epoch s.router id coinMint) (s.distribution id) x)

def pushPayouts (env : PayoutEnv) (s : PayoutSystem) (id : EpochId) (x : PushInput) :
    DistResult (PayoutSystem × List Payout) := do
  let mint ← loadCoinMint s id
  onEpoch s id (handlePushPayouts (env.epoch s.router id mint) (s.distribution id) x)

def finalizeEpoch (s : PayoutSystem) (id : EpochId) (keeper : Pubkey) (merkleRoot : Bytes32)
    (merkleTotal : UInt64) : DistResult (PayoutSystem × EpochFinalized) :=
  onEpoch s id (handleFinalizeEpoch (s.distribution id) keeper merkleRoot merkleTotal)

def claim (env : PayoutEnv) (s : PayoutSystem) (id : EpochId) (x : ClaimInput) :
    DistResult (PayoutSystem × Payout) := do
  let mint ← loadCoinMint s id
  onEpoch s id (handleClaim (env.epoch s.router id mint) (s.distribution id) x)

def sweepUnclaimed (env : PayoutEnv) (s : PayoutSystem) (id : EpochId) (x : SweepInput) :
    DistResult (PayoutSystem × EpochSwept) := do
  let mint ← loadCoinMint s id
  onEpoch s id (handleSweepUnclaimed (env.epoch s.router id mint) (s.distribution id) x)

/-- `set_keepers` and `set_params` write the config alone. -/
def configureWith (s : PayoutSystem) (config : DistResult DistConfig) :
    DistResult PayoutSystem := do
  let config ← config
  .ok { s with config }

end IceMarkets.Payouts
