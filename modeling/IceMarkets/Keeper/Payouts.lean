import IceMarkets.Keeper.Chain
import IceMarkets.Lib.Async

/-!
# IceMarkets.Keeper.Payouts

The payout cycle of one pool (`apps/keeper/src/cycles/payouts.ts`), as the program it is over
the calls it awaits: RPC reads, database statements (`db.ts`) and one attempt after another to
send a transaction (`sendWithPriority` of `rpc.ts`).

Any call may fail. A failed statement may have been executed, and a transaction whose
attempt failed may have been submitted: it lands later or never (`PayoutReply.lost`). Between
two calls anything may happen that `PayoutEvent` lists.

The tables `merkle_leaves` and the columns of `epochs` that only say an epoch is finalized are
left out, since the cycle reads neither; the calls that write them can still fail. The world
keeps what the keeper was last answered when it asked for what a plan is made of
(`PlanReads`): no call depends on it, but a plan can be judged by it.
-/

namespace IceMarkets.Keeper

open Distributor Sdk InFlight Async

/-! ### The database -/

/-- `EpochPhase`. -/
inductive EpochPhase
  | planned
  | opened
  | pushed
  | finalized
  deriving DecidableEq, Repr

/-- A row of `epoch_progress`. -/
structure EpochProgressRow where
  epochIndex : Nat
  phase : EpochPhase
  startTs : Int
  endTs : Int
  totalAmount : Nat
  plan : List EpochPlanItem
  deriving DecidableEq, Repr

/-- A row of `payouts` with kind 0. -/
structure PushRow where
  epoch : Nat
  item : EpochPlanItem
  deriving DecidableEq, Repr

structure PayoutDb where
  /-- The indexes in `epochs`. -/
  epochs : List Nat
  progress : List EpochProgressRow
  pushes : List PushRow
  deriving DecidableEq, Repr

namespace PayoutDb

variable (db : PayoutDb)

/-- Highest index in `epochs` and `epoch_progress`, or -1. -/
def maxKnownEpochIndex : Int :=
  ((db.epochs ++ db.progress.map (·.epochIndex)).map (fun i : Nat => (i : Int))).foldl max (-1)

def epochProgress (index : Nat) : Option EpochProgressRow :=
  db.progress.find? (·.epochIndex = index)

def pushedPayouts (index : Nat) : List EpochPlanItem :=
  (db.pushes.filter (·.epoch = index)).map (·.item)

/-- A row is overwritten while its phase is `planned`. -/
def saveEpochPlan (row : EpochProgressRow) : PayoutDb :=
  { db with progress :=
      if (db.epochProgress row.epochIndex).isSome then
        db.progress.map fun r => if r.epochIndex = row.epochIndex ∧
          r.phase = .planned then row else r
      else db.progress ++ [row] }

def setEpochPhase (index : Nat) (phase : EpochPhase) : PayoutDb :=
  { db with progress := db.progress.map fun r => if r.epochIndex =
              index then { r with phase } else r }

def insertEpoch (index : Nat) : PayoutDb :=
  { db with epochs := if index ∈ db.epochs then db.epochs else db.epochs ++ [index] }

/-- The first row of a wallet stays. -/
def insertPayout (index : Nat) (item : EpochPlanItem) : PayoutDb :=
  if db.pushes.any fun r => r.epoch = index ∧ r.item.wallet = item.wallet then db
  else { db with pushes := db.pushes ++ [{ epoch := index, item }] }

def recordPayout (index : Nat) (item : EpochPlanItem) : PayoutDb :=
  db.insertPayout index (recordedItem item)

end PayoutDb

/-! ### The world around the cycle -/

/-- What the keeper read last of what its plans are made of. -/
structure PlanReads where
  events : List (BalanceEvent Pubkey)
  priorEvents : List (BalanceEvent Pubkey)
  candle : Option String
  coin : Option Nat

structure PayoutWorld where
  chain : Chain
  db : PayoutDb
  reads : PlanReads
  /-- The balance of the pool's `holder_vault`. -/
  vault : UInt64
  coinPrice : Option Nat
  candleClose : Option String
  balanceEvents : List (BalanceEvent Pubkey)
  /-- Whether a wallet has a token account for the coin. -/
  tokenAccounts : Pubkey → Bool
  /-- What `chainNowSec` answers: a confirmed block's time, or the keeper's own. -/
  clock : Int

/-- What may happen between two calls. -/
inductive PayoutEvent
  | chain (e : ChainEvent)
  /-- Anything that the cycle only reads. -/
  | inputs (vault : UInt64) (coinPrice : Option Nat) (candleClose : Option String)
      (balanceEvents : List (BalanceEvent Pubkey)) (clock : Int)
  | tokenAccount (wallet : Pubkey) (exists_ : Bool)
  /-- The indexer stores an epoch that was opened. -/
  | ingestEpoch (index : Nat)
  /-- The indexer stores a payout that was pushed. -/
  | ingestPayout (index : Nat) (item : EpochPlanItem)
  /-- Rows of `epoch_progress` are lost or altered. -/
  | progress (rows : List EpochProgressRow)

def payoutEvent (env : KeeperEnv) (w : PayoutWorld) : PayoutEvent → Option PayoutWorld
  | .chain e => (chainStep env w.chain e).map fun chain => { w with chain }
  | .inputs vault coinPrice candleClose balanceEvents clock =>
      some { w with vault, coinPrice, candleClose, balanceEvents, clock }
  | .tokenAccount wallet exists_ =>
      some { w with tokenAccounts := Function.update w.tokenAccounts wallet exists_ }
  | .ingestEpoch index =>
      if (w.chain.epochs index).isSome then some { w with db := w.db.insertEpoch index } else none
  | .ingestPayout index item =>
      if item ∈ w.chain.paid index then some { w with db := w.db.insertPayout index item } else none
  | .progress rows => some { w with db := { w.db with progress := rows } }

/-! ### Calls -/

inductive PayoutOp
  | getMaxKnownEpochIndex
  | fetchEpoch (index : Nat)
  | getTokenAccountBalance
  | getLatestPrice
  | getLatestCandleClose
  | chainNowSec
  | getBalanceEvents (startTs endTs : Int)
  | getBalanceEventsBefore (startTs : Int)
  | saveEpochPlan (row : EpochProgressRow)
  | submit (tx : PayoutTx)
  | setEpochPhase (index : Nat) (phase : EpochPhase)
  | insertEpoch (index : Nat)
  | getEpochProgress (index : Nat)
  | getPushedPayouts (index : Nat)
  /-- The epoch's transactions and their `Payout` events. -/
  | payoutEvents (index : Nat)
  | recordPayout (index : Nat) (item : EpochPlanItem)
  | fetchConfig
  | getMultipleAccountsInfo (wallets : List Pubkey)
  | insertMerkleLeaves (rows : List MerkleLeafRow)
  | markEpochFinalized (index : Nat)
  | setEpochError (index : Nat)

abbrev PayoutOp.Answer : PayoutOp → Type
  | getMaxKnownEpochIndex => Int
  | fetchEpoch _ => Option Epoch
  | getTokenAccountBalance => UInt64
  | getLatestPrice => Option Nat
  | getLatestCandleClose => Option String
  | chainNowSec => Int
  | getBalanceEvents _ _ => List (BalanceEvent Pubkey)
  | getBalanceEventsBefore _ => List (BalanceEvent Pubkey)
  | getEpochProgress _ => Option EpochProgressRow
  | getPushedPayouts _ => List EpochPlanItem
  | payoutEvents _ => List EpochPlanItem
  | fetchConfig => DistConfig
  | getMultipleAccountsInfo _ => List Bool
  | _ => Unit

/-- How a call ends. `found` lists the events among those pushed that the RPC still has. -/
inductive PayoutReply
  | done
  | failed
  | lost
  | found (events : List EpochPlanItem)

/-- A read. -/
def answerRead {α : Type} (w : PayoutWorld) (a : α) : PayoutReply → Option (Option α × PayoutWorld)
  | .done => some (some a, w)
  | .failed => some (none, w)
  | _ => none

/-- A read of what a plan is made of. -/
def answerNoted {α : Type} (w : PayoutWorld) (reads : PlanReads) (a : α) :
    PayoutReply → Option (Option α × PayoutWorld)
  | .done => some (some a, { w with reads })
  | .failed => some (none, w)
  | _ => none

/-- A read that the database may refuse. -/
def answerQuery {α : Type} (w : PayoutWorld) (a : Option α) :
    PayoutReply → Option (Option α × PayoutWorld)
  | .done => a.map fun a => (some a, w)
  | .failed => some (none, w)
  | _ => none

/-- A write that leaves the world as `w'`. -/
def answerWrite (w w' : PayoutWorld) : PayoutReply → Option (Option Unit × PayoutWorld)
  | .done => some (some (), w')
  | .failed => some (none, w)
  | .lost => some (none, w')
  | .found _ => none

/-- One attempt of `sendWithPriority`: done is confirmed. -/
def answerSubmit (env : KeeperEnv) (w : PayoutWorld) (tx : PayoutTx) :
    PayoutReply → Option (Option Unit × PayoutWorld)
  | .done => (w.chain.confirm env tx).map fun chain => (some (), { w with chain })
  | .failed => some (none, w)
  | .lost => some (none, { w with chain := w.chain.submit tx })
  | .found _ => none

def answerEvents (w : PayoutWorld) (index : Nat) :
    PayoutReply → Option (Option (List EpochPlanItem) × PayoutWorld)
  | .found events => if events.Subperm (w.chain.paid index) then some (some events, w) else none
  | .failed => some (none, w)
  | _ => none

/-- Rows of `balance_events` in the order of their time. -/
def eventRows (w : PayoutWorld) (p : Int → Bool) : List (BalanceEvent Pubkey) :=
  (w.balanceEvents.filter fun ev => p ev.ts).insertionSort (·.ts ≤ ·.ts)

def respond (env : KeeperEnv) (w : PayoutWorld) :
    (o : PayoutOp) → PayoutReply → Option (Option o.Answer × PayoutWorld)
  | .getMaxKnownEpochIndex => answerRead w w.db.maxKnownEpochIndex
  | .fetchEpoch index => answerRead w (w.chain.epochs index)
  | .getTokenAccountBalance => answerRead w w.vault
  | .getLatestPrice => answerNoted w { w.reads with coin := w.coinPrice } w.coinPrice
  | .getLatestCandleClose =>
      answerNoted w { w.reads with candle := w.candleClose } w.candleClose
  | .chainNowSec => answerRead w w.clock
  | .getBalanceEvents startTs endTs =>
      let events := eventRows w fun ts => startTs ≤ ts ∧ ts < endTs
      answerNoted w { w.reads with events } events
  | .getBalanceEventsBefore startTs =>
      let priorEvents := eventRows w (· < startTs)
      answerNoted w { w.reads with priorEvents } priorEvents
  | .saveEpochPlan row => answerWrite w { w with db := w.db.saveEpochPlan row }
  | .submit tx => answerSubmit env w tx
  | .setEpochPhase index phase => answerWrite w { w with db := w.db.setEpochPhase index phase }
  | .insertEpoch index => answerWrite w { w with db := w.db.insertEpoch index }
  | .getEpochProgress index => answerRead w (w.db.epochProgress index)
  | .getPushedPayouts index => answerQuery w (readPushed (w.db.pushedPayouts index))
  | .payoutEvents index => answerEvents w index
  | .recordPayout index item => answerWrite w { w with db := w.db.recordPayout index item }
  | .fetchConfig => answerRead w w.chain.config
  | .getMultipleAccountsInfo wallets => answerRead w (wallets.map w.tokenAccounts)
  | .insertMerkleLeaves _ => answerWrite w w
  | .markEpochFinalized _ => answerWrite w w
  | .setEpochError _ => answerWrite w w

/-! ### The cycle -/

abbrev Cycle (α : Type) : Type := Prog PayoutOp PayoutOp.Answer α

abbrev await (o : PayoutOp) : Cycle o.Answer := Prog.await o

/-- An epoch's index as the program's addresses and arguments take it. -/
def toU32 (v : Nat) : Option UInt32 := if h : v < 2 ^ 32 then some (UInt32.ofNatLT v h) else none

/-- The probe forward of `findLatestOnChainEpoch`; there is no address for an index from 2³² on. -/
def probe : (fuel : Nat) → (idx : Int) → Cycle Int
  | 0, _ => .fail
  | fuel + 1, idx =>
      (await (.fetchEpoch (idx + 1).toNat)).bind fun next =>
        match next with
        | some (_ : Epoch) => probe fuel (idx + 1)
        | none => .ret idx

/-- The steps back over an index whose opening never landed. -/
def stepBack : (steps : Nat) → (i : Int) → Cycle (Option Epoch)
  | 0, _ => .ret none
  | steps + 1, i =>
      if i < 0 then .ret none
      else
        (await (.fetchEpoch i.toNat)).bind fun acc =>
          match acc with
          | some (e : Epoch) => .ret (some e)
          | none => stepBack steps (i - 1)

def findLatestOnChainEpoch : Cycle (Option Epoch) :=
  (await .getMaxKnownEpochIndex).bind fun (idx : Int) =>
    (probe (2 ^ 32 - (idx + 1).toNat) idx).bind fun idx => stepBack 3 idx

/-- `minBase` of `applyMinHoldingFilter` where both prices are there. -/
def minHoldingBase (env : KeeperEnv) : Option String → Option Nat → Option Nat
  | some close, some coin => env.minBase close coin
  | _, _ => none

/-- The balances that are worth the least holding, at the prices that are there. -/
def holdersAbove (env : KeeperEnv) (candle : Option String) (coin : Option Nat)
    (twab : List (Pubkey × Nat)) : List (Pubkey × Nat) :=
  match minHoldingBase env candle coin with
  | some minBase => twab.filter (minBase ≤ ·.2)
  | none => twab

def applyMinHoldingFilter (env : KeeperEnv) (twab : List (Pubkey × Nat)) :
    Cycle (List (Pubkey × Nat)) :=
  if env.minHolding = true then
    (await .getLatestCandleClose).bind fun (candle : Option String) =>
      (await .getLatestPrice).bind fun (coin : Option Nat) =>
        .ret (holdersAbove env candle coin twab)
  else .ret twab

/-- The items, and the total of the balances they are for. -/
structure Plan where
  items : List EpochPlanItem
  twabTotal : Nat
  deriving DecidableEq, Repr

/-- The plan of the eligible balances; none where nobody gets anything. -/
def planOf (env : KeeperEnv) (eligible : List (Pubkey × Nat)) (total : Nat) : Option Plan :=
  let items := planItems env eligible total
  if items.isEmpty then none else some { items, twabTotal := (eligible.map (·.2)).sum }

def computePlan (env : KeeperEnv) (startTs endTs : Int) (total : Nat) : Cycle (Option Plan) :=
  (await (.getBalanceEvents startTs endTs)).bind fun (events : List (BalanceEvent Pubkey)) =>
    (await (.getBalanceEventsBefore startTs)).bind fun (priorEvents : List (BalanceEvent Pubkey)) =>
      (Prog.ofOption (computeTwab (priorEvents ++ events)
        { start := startTs, stop := endTs, exclude := env.excludedAddresses })).bind fun twab =>
          if twab.isEmpty then .ret none
          else
            (applyMinHoldingFilter env twab).bind fun eligible =>
              if eligible.isEmpty then .ret none else .ret (planOf env eligible total)

/-- The balances of a plan, at the prices read. -/
def eligibleRead (env : KeeperEnv) (reads : PlanReads) (twab : List (Pubkey × Nat)) :
    List (Pubkey × Nat) :=
  if env.minHolding = true then holdersAbove env reads.candle reads.coin twab else twab

/-- The plan of a window and an amount that the balances and prices read make. -/
def planRead (env : KeeperEnv) (reads : PlanReads) (startTs endTs : Int) (total : Nat) :
    Option Plan :=
  (computeTwab (reads.priorEvents ++ reads.events)
    { start := startTs, stop := endTs, exclude := env.excludedAddresses }).bind fun twab =>
      planOf env (eligibleRead env reads twab) total

theorem eligibleRead_sublist (env : KeeperEnv) (reads : PlanReads) (twab : List (Pubkey × Nat)) :
    (eligibleRead env reads twab).Sublist twab := by
  unfold eligibleRead holdersAbove
  split_ifs
  · split
    · exact List.filter_sublist
    · exact List.Sublist.refl _
  · exact List.Sublist.refl _

theorem planOf_nil (env : KeeperEnv) (total : Nat) : planOf env [] total = none := by
  simp [planOf, planItems, computeShares, usdToCoinBaseUnits, splitShares, sortByWallet]

/-- The attempts left of `sendWithPriority`. -/
def attempt (tx : PayoutTx) : Nat → Cycle Unit
  | 0 => .fail
  | attempts + 1 =>
      .call (.submit tx) fun
        | some _ => .ret ()
        | none => attempt tx attempts

def sendWithPriority (tx : PayoutTx) : Cycle Unit := attempt tx maxRetries

def writeFinalized (env : KeeperEnv) (index : Nat) (tree : Option EpochMerkleTree) : Cycle Unit :=
  (match tree with
    | some tree =>
        (Prog.ofOption (merkleLeafRows env index tree).toOption).bind fun rows =>
          await (.insertMerkleLeaves rows)
    | none => .ret ()).bind fun _ =>
      (await (.markEpochFinalized index)).bind fun _ =>
        await (.setEpochPhase index .finalized)

/-- One `push_payouts` and the rows of its payouts. -/
def pushChunk (acc : Epoch) (plan : List EpochPlanItem) (already : List Pubkey)
    (chunk : List EpochPlanItem) : Cycle Unit :=
  (Prog.ofOption (encodeItems chunk)).bind fun items =>
    (sendWithPriority { payload := .pushPayouts acc.index.toNat items, plan,
                        acc := some acc, already
                        leaves := [] }).bind fun _ =>
      Prog.forEach chunk fun c => await (.recordPayout acc.index.toNat c)

/-- The end of `pushAndFinalize`, with the remaining items split. -/
def finalize (env : KeeperEnv) (acc : Epoch) (plan : List EpochPlanItem) (already : List Pubkey)
    (s : Split) : Cycle Unit :=
  (await (.setEpochPhase acc.index.toNat .pushed)).bind fun _ =>
    let merkle := sortByWallet env s.merkle
    (Prog.ofOption (epochTree env acc.index.toNat merkle).toOption).bind fun tree =>
      if acc.totalAmount.toNat < treeTotal tree + s.pushedTotal then .fail
      else
        (Prog.ofOption (IceMarkets.toU64 (treeTotal tree))).bind fun merkleTotal =>
          (sendWithPriority {
              payload := .finalizeEpoch acc.index.toNat (treeRoot tree) merkleTotal
              plan, acc := some acc, already, leaves := merkle }).bind fun _ =>
            writeFinalized env acc.index.toNat tree

def pushAndFinalize (env : KeeperEnv) (acc : Epoch) (plan : List EpochPlanItem)
    (alreadyPushed : List (Pubkey × Nat)) : Cycle Unit :=
  (await .fetchConfig).bind fun (cfg : DistConfig) =>
    let already := alreadyPushed.map (·.1)
    let wallets := (remainingOf plan already).map (·.wallet)
    (if wallets.isEmpty then .ret [] else await (.getMultipleAccountsInfo wallets)).bind
      fun (infos : List Bool) =>
        let s := splitPlan cfg acc plan already infos
        (Prog.forEach (chunks s.pushable) (pushChunk acc plan already)).bind fun _ =>
          finalize env acc plan already s

/-- The loop over the events: a wallet not there yet is added and recorded. -/
def recordNew (index : Nat) : List EpochPlanItem → List (Pubkey × Nat) → Cycle (List (Pubkey × Nat))
  | [], pushed => .ret pushed
  | ev :: events, pushed =>
      if ev.wallet ∈ pushed.map (·.1) then recordNew index events pushed
      else (await (.recordPayout index ev)).bind fun _ =>
        recordNew index events (addPayout pushed ev)

/-- The rows, or the rows and the events they miss; both have to add up. -/
def reconcilePushed (acc : Epoch) : Cycle (List (Pubkey × Nat)) :=
  (await (.getPushedPayouts acc.index.toNat)).bind fun (rows : List EpochPlanItem) =>
    if planTotal rows = acc.pushedAmount.toNat then .ret (pushedMap rows)
    else
      (await (.payoutEvents acc.index.toNat)).bind fun (events : List EpochPlanItem) =>
        (recordNew acc.index.toNat events (pushedMap rows)).bind fun pushed =>
          if pushedSum pushed = acc.pushedAmount.toNat then .ret pushed else .fail

/-- The row of a plan, not opened yet. -/
def plannedRow (index : Nat) (startTs endTs : Int) (totalAmount : Nat) (plan : List EpochPlanItem) :
    EpochProgressRow :=
  { epochIndex := index, phase := .planned, startTs, endTs, totalAmount, plan }

/-- The plan `resumeEpoch` goes by: the stored one, or one computed again and stored. -/
def resumedPlan (env : KeeperEnv) (acc : Epoch) : Cycle (List EpochPlanItem) :=
  (await (.getEpochProgress acc.index.toNat)).bind fun (progress : Option EpochProgressRow) =>
    match progress.filter (·.totalAmount = acc.totalAmount.toNat) with
    | some row => .ret row.plan
    | none =>
        (computePlan env acc.startTs acc.endTs acc.totalAmount.toNat).bind fun recomputed =>
          let plan := (recomputed.map (·.items)).getD []
          (await (.saveEpochPlan (plannedRow acc.index.toNat acc.startTs acc.endTs
            acc.totalAmount.toNat plan))).bind fun _ => .ret plan

def resumeEpoch (env : KeeperEnv) (acc : Epoch) : Cycle Unit :=
  (resumedPlan env acc).bind fun plan =>
    (await (.setEpochPhase acc.index.toNat .opened)).bind fun _ =>
      (await (.insertEpoch acc.index.toNat)).bind fun _ =>
        ((reconcilePushed acc).bind fun pushed => pushAndFinalize env acc plan pushed).catch_
          ((await (.setEpochError acc.index.toNat)).bind fun _ => .fail)

def repairFinalizedBookkeeping (env : KeeperEnv) (acc : Epoch) : Cycle Unit :=
  (await (.getEpochProgress acc.index.toNat)).bind fun (progress : Option EpochProgressRow) =>
    match progress.filter (·.phase ≠ .finalized) with
    | none => .ret ()
    | some row =>
        (reconcilePushed acc).bind fun pushed =>
          (Prog.ofOption (epochTree env acc.index.toNat
            (repairMerkle env row.plan pushed)).toOption).bind
            fun tree =>
              if treeRoot tree = acc.merkleRoot then writeFinalized env acc.index.toNat tree
              else await (.setEpochError acc.index.toNat)

/-- The arguments of `open_epoch`, where the encoder takes them. -/
def openArgs (env : KeeperEnv) (index : UInt32) (startTs endTs : Int) (totalAmount : UInt64)
    (plan : Plan) :
    Option OpenEpochArgs :=
  (toU32 plan.items.length).map fun eligibleHolders =>
    { pool := env.pool, index, startTs, endTs, totalAmount, eligibleHolders,
      twabTotal := plan.twabTotal }

/-- The rest of `openNewEpoch`, with a plan. -/
def openPlanned (env : KeeperEnv) (index : UInt32) (startTs endTs : Int) (total : UInt64)
    (plan : Plan) :
    Cycle Unit :=
  (await (.saveEpochPlan (plannedRow index.toNat startTs endTs total.toNat plan.items))).bind
    fun _ =>
    (Prog.ofOption (openArgs env index startTs endTs total plan)).bind fun args =>
      (sendWithPriority { payload := .openEpoch args, plan := plan.items, acc := none, already := []
                          leaves := [] }).bind fun _ =>
        (await (.setEpochPhase index.toNat .opened)).bind fun _ =>
          (await (.insertEpoch index.toNat)).bind fun _ =>
            (await (.fetchEpoch index.toNat)).bind fun (acc : Option Epoch) =>
              match acc with
              | none => .fail
              | some acc => pushAndFinalize env acc plan.items []

def openNewEpoch (env : KeeperEnv) (latest : Option Epoch) : Cycle Unit :=
  .call .getTokenAccountBalance fun
    | none => .ret ()
    | some (vault : UInt64) =>
        if vault = 0 then .ret ()
        else
          (await .getLatestPrice).bind fun (coinPrice : Option Nat) =>
            match coinPrice.filter (env.worthOpening vault.toNat) with
            | none => .ret ()
            | some _ =>
                (await .chainNowSec).bind fun (now : Int) =>
                  let index := (latest.map fun e => e.index.toNat + 1).getD 0
                  let startTs := (latest.map (·.endTs)).getD (now - env.feeCycleIntervalSec)
                  if now ≤ startTs then .ret ()
                  else
                    (computePlan env startTs now vault.toNat).bind fun plan =>
                      match plan with
                      | none => .ret ()
                      | some plan =>
                          (Prog.ofOption (toU32 index)).bind fun index =>
                            openPlanned env index startTs now vault plan

def runPayoutsForPool (env : KeeperEnv) : Cycle Unit :=
  findLatestOnChainEpoch.bind fun latest =>
    match latest with
    | none => openNewEpoch env none
    | some acc =>
        if acc.finalized = false then resumeEpoch env acc
        else
          ((repairFinalizedBookkeeping env acc).catch_
            (await (.setEpochError acc.index.toNat))).bind
            fun _ => openNewEpoch env (some acc)

/-! ### The keeper in its world -/

def payoutMachine (env : KeeperEnv) :
    Machine PayoutOp PayoutOp.Answer PayoutWorld PayoutEvent PayoutReply where
  respond := respond env
  event := payoutEvent env

/-- A world and the cycle the keeper is in. -/
abbrev PayoutConfig : Type := Config PayoutOp PayoutOp.Answer PayoutWorld

/-- One step of the keeper or around it, where it is allowed; a cycle is started again and
again. -/
def PayoutStep (env : KeeperEnv) (allowed : PayoutWorld → Act PayoutOp Unit PayoutEvent → Prop) :
    PayoutConfig → Act PayoutOp Unit PayoutEvent → PayoutConfig → Prop :=
  AllowedStep (payoutMachine env).system (fun _ => runPayoutsForPool env) allowed

/-- Before the first epoch of the pool. -/
structure PayoutWorld.Fresh (w : PayoutWorld) : Prop where
  epochs : ∀ index, w.chain.epochs index = none
  txs : w.chain.txs = []
  db : w.db = { epochs := [], progress := [], pushes := [] }

/-- A run of allowed steps from before the first epoch. -/
def PayoutRun (env : KeeperEnv) (allowed : PayoutWorld → Act PayoutOp Unit PayoutEvent → Prop)
    (tr : List (Act PayoutOp Unit PayoutEvent)) (s : PayoutConfig) : Prop :=
  ∃ w : PayoutWorld, w.Fresh ∧ Lts.Run (PayoutStep env allowed) (w, none) tr s

namespace Sample

open Distributor.Sample (walletA)

/-- A pool before its first epoch: one holder, who has a token account, and a vault worth opening
an epoch for. -/
def freshWorld (maxPushPerEpochBps : UInt16) (balanceEvents : List (BalanceEvent Pubkey))
    (vault : UInt64) :
    PayoutWorld where
  chain := { config := { Distributor.Sample.config with maxPushPerEpochBps }, now := 1000
             epochs := fun _ => none, txs := [] }
  db := { epochs := [], progress := [], pushes := [] }
  reads := { events := [], priorEvents := [], candle := none, coin := none }
  vault := vault
  coinPrice := some 100000000
  candleClose := none
  balanceEvents := balanceEvents
  tokenAccounts := fun wallet => decide (wallet = walletA)
  clock := 1000

theorem freshWorld_fresh (bps : UInt16) (balanceEvents : List (BalanceEvent Pubkey))
    (vault : UInt64) :
    (freshWorld bps balanceEvents vault).Fresh := ⟨fun _ => rfl, rfl, rfl⟩

/-- So many replies that confirm. -/
def confirmed (n : Nat) : List (Move Unit PayoutEvent PayoutReply) :=
  List.replicate n (.reply .done)

/-- The replies of an attempt to send that all fail. -/
def unsent : List (Move Unit PayoutEvent PayoutReply) := List.replicate maxRetries (.reply .failed)

end Sample

end IceMarkets.Keeper
