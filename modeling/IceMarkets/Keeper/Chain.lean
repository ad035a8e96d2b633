import IceMarkets.Keeper.Partition
import IceMarkets.Lib.InFlight

/-!
# IceMarkets.Keeper.Chain

The payout epochs of one pool on chain, and the transactions its keeper signed.

A signed transaction lands at any later time where the program accepts it, once, or
never. What each epoch account holds is what landed made of it (`EpochFacts`), whatever
was signed. `Grows` is what becomes of a chain in time; what the keeper read off it
earlier is kept by it.
-/

namespace IceMarkets.Keeper

open Distributor Sdk InFlight

/-! ### Transactions -/

/-- The instruction of a transaction of the payout cycle. -/
inductive Payload
  | openEpoch (args : OpenEpochArgs)
  | pushPayouts (index : Nat) (items : List PayoutItem)
  | finalizeEpoch (index : Nat) (merkleRoot : Bytes32) (merkleTotal : UInt64)
  deriving DecidableEq, Repr

def Payload.index : Payload → Nat
  | .openEpoch args => args.index.toNat
  | .pushPayouts index _ => index
  | .finalizeEpoch index _ _ => index

/-- A transaction, and what the keeper made it from, which is not sent: the plan, and for a push
or a finalization the account it had read, the wallets it had found pushed and the leaves under
the root. -/
structure PayoutTx where
  payload : Payload
  plan : List EpochPlanItem
  acc : Option Epoch
  already : List Pubkey
  leaves : List EpochPlanItem
  deriving DecidableEq, Repr

/-- The chain as the pool's epochs see it. -/
structure Chain where
  config : DistConfig
  now : Int
  epochs : Nat → Option Epoch
  txs : List (Sent PayoutTx)

/-- The epoch account an instruction leaves, where it is accepted. -/
def record (env : KeeperEnv) (c : Chain) : Payload → Option Epoch
  | .openEpoch args =>
      if args.pool = env.pool ∧ c.epochs args.index.toNat = none then
        (recordOpen c.config env.coinMint c.now env.keeper args).toOption
      else none
  | .pushPayouts index items =>
      (c.epochs index).bind fun e => (recordPush c.config e env.keeper items).toOption
  | .finalizeEpoch index merkleRoot merkleTotal =>
      (c.epochs index).bind fun e =>
        (recordFinalize c.config e env.keeper merkleRoot merkleTotal).toOption

/-- What happens on chain without the keeper. `claim` stands for what holders do with a
finalized epoch, `configure` for the admin. -/
inductive ChainEvent
  | land (sig : Nat)
  | expire (sig : Nat)
  | tick (now : Int)
  | configure (config : DistConfig)
  | claim (index : Nat) (claimed : UInt64)
  deriving DecidableEq, Repr

def Chain.setEpoch (c : Chain) (index : Nat) (e : Epoch) : Chain :=
  { c with epochs := Function.update c.epochs index (some e) }

def Chain.land (c : Chain) (sig : Nat) (index : Nat) (e : Epoch) : Chain :=
  { c.setEpoch index e with txs := settle c.txs sig .landed }

def chainStep (env : KeeperEnv) (c : Chain) : ChainEvent → Option Chain
  | .land sig => do
      let s ← c.txs[sig]?
      if s.status = .pending then
        let e ← record env c s.message.payload
        some (c.land sig s.message.payload.index e)
      else none
  | .expire sig => do
      let s ← c.txs[sig]?
      if s.status = .pending then some { c with txs := settle c.txs sig .expired } else none
  | .tick now => if c.now ≤ now then some { c with now } else none
  | .configure config => some { c with config }
  | .claim index claimed => do
      let e ← c.epochs index
      if e.finalized = true then some (c.setEpoch index { e with claimedAmount := claimed })
      else none

/-- The keeper signs and submits one more transaction. -/
def Chain.submit (c : Chain) (tx : PayoutTx) : Chain := { c with txs := send c.txs tx }

/-- The transaction just submitted lands. -/
def Chain.confirm (env : KeeperEnv) (c : Chain) (tx : PayoutTx) : Option Chain :=
  (record env c tx.payload).map fun e => (c.submit tx).land c.txs.length tx.payload.index e

/-! ### What landed -/

/-- The opening of an epoch, with the plan it was opened for. -/
def opensOf (index : Nat) (tx : PayoutTx) : List (OpenEpochArgs × List EpochPlanItem) :=
  match tx.payload with
  | .openEpoch args => if args.index.toNat = index then [(args, tx.plan)] else []
  | _ => []

/-- The items of a push of an epoch. -/
def itemsOf (index : Nat) (tx : PayoutTx) : List EpochPlanItem :=
  match tx.payload with
  | .pushPayouts i items => if i = index then items.map planItem else []
  | _ => []

/-- The `finalize_epoch` of an epoch: its root, its total and its transaction. -/
def closingsOf (index : Nat) (tx : PayoutTx) : List (Bytes32 × UInt64 × PayoutTx) :=
  match tx.payload with
  | .finalizeEpoch i merkleRoot merkleTotal =>
    if i = index then [(merkleRoot, merkleTotal, tx)] else []
  | _ => []

namespace Chain

def opens (c : Chain) (index : Nat) : List (OpenEpochArgs × List EpochPlanItem) :=
  landedOf (opensOf index) c.txs

/-- What the landed pushes of an epoch paid. -/
def paid (c : Chain) (index : Nat) : List EpochPlanItem := landedOf (itemsOf index) c.txs

def closings (c : Chain) (index : Nat) : List (Bytes32 × UInt64 × PayoutTx) :=
  landedOf (closingsOf index) c.txs

/-- Every transaction that was signed. -/
def signed (c : Chain) : List PayoutTx := c.txs.map (·.message)

/-- What the pushes of an epoch that landed or can land pay. -/
def payable (c : Chain) (index : Nat) : List EpochPlanItem := liveOf (itemsOf index) c.txs

/-- The `open_epoch` transactions of an epoch that landed or can land; once the epoch is there,
none can. -/
def openable (c : Chain) (index : Nat) : List (OpenEpochArgs × List EpochPlanItem) :=
  if c.epochs index = none then liveOf (opensOf index) c.txs else c.opens index

end Chain

/-- A push or a finalization. -/
def PayoutTx.pays (tx : PayoutTx) : Bool :=
  match tx.payload with
  | .openEpoch _ => false
  | _ => true

section Payloads

variable {index : Nat} {tx : PayoutTx}

theorem opensOf_of_ne (h : tx.payload.index ≠ index) : opensOf index tx = [] := by
  unfold opensOf
  cases hp : tx.payload with
  | openEpoch args =>
      rw [hp] at h
      exact if_neg h
  | pushPayouts i items => rfl
  | finalizeEpoch i root total => rfl

theorem itemsOf_of_ne (h : tx.payload.index ≠ index) : itemsOf index tx = [] := by
  unfold itemsOf
  cases hp : tx.payload with
  | openEpoch args => rfl
  | pushPayouts i items =>
      rw [hp] at h
      exact if_neg h
  | finalizeEpoch i root total => rfl

/-- Only a push has items. -/
theorem itemsOf_of_not_pays (h : tx.pays = false) : itemsOf index tx = [] := by
  unfold PayoutTx.pays at h
  unfold itemsOf
  cases hp : tx.payload with
  | openEpoch args => rfl
  | pushPayouts i items => simp [hp] at h
  | finalizeEpoch i root total => rfl

theorem closingsOf_of_ne (h : tx.payload.index ≠ index) : closingsOf index tx = [] := by
  unfold closingsOf
  cases hp : tx.payload with
  | openEpoch args => rfl
  | pushPayouts i items => rfl
  | finalizeEpoch i root total =>
      rw [hp] at h
      exact if_neg h

theorem mem_opensOf {x : OpenEpochArgs × List EpochPlanItem} : x ∈ opensOf index tx ↔
    tx.payload = .openEpoch x.1 ∧ x.1.index.toNat = index ∧ x.2 = tx.plan := by
  unfold opensOf
  constructor
  · intro h
    cases hp : tx.payload with
    | openEpoch args =>
        simp only [hp, List.mem_ite_nil_right, List.mem_singleton] at h
        obtain ⟨hi, rfl⟩ := h
        exact ⟨rfl, hi, rfl⟩
    | pushPayouts i items => simp [hp] at h
    | finalizeEpoch i root total => simp [hp] at h
  · intro hx
    obtain ⟨hp, hi, hplan⟩ := hx
    simp [hp, hi, ← hplan]

theorem mem_closingsOf {x : Bytes32 × UInt64 × PayoutTx} (h : x ∈ closingsOf index tx) :
    tx.payload = .finalizeEpoch index x.1 x.2.1 ∧ x.2.2 = tx := by
  unfold closingsOf at h
  cases hp : tx.payload with
  | openEpoch args => simp [hp] at h
  | pushPayouts i items => simp [hp] at h
  | finalizeEpoch i root total =>
      simp only [hp, List.mem_ite_nil_right, List.mem_singleton] at h
      obtain ⟨rfl, rfl⟩ := h
      exact ⟨rfl, rfl⟩

end Payloads

/-! ### What becomes of an account -/

/-- What a later account keeps of an earlier one. -/
structure Evolves (e e' : Epoch) : Prop where
  index : e'.index = e.index
  startTs : e'.startTs = e.startTs
  endTs : e'.endTs = e.endTs
  totalAmount : e'.totalAmount = e.totalAmount
  pushedAmount : e.pushedAmount.toNat ≤ e'.pushedAmount.toNat
  finalized : e.finalized = true → e'.finalized = true

theorem Evolves.refl (e : Epoch) : Evolves e e := ⟨rfl, rfl, rfl, rfl, le_rfl, fun h => h⟩

theorem Evolves.trans {e e' e'' : Epoch} (h : Evolves e e') (h' : Evolves e' e'') :
    Evolves e e'' where
  index := h'.index.trans h.index
  startTs := h'.startTs.trans h.startTs
  endTs := h'.endTs.trans h.endTs
  totalAmount := h'.totalAmount.trans h.totalAmount
  pushedAmount := h.pushedAmount.trans h'.pushedAmount
  finalized := fun hf => h'.finalized (h.finalized hf)

/-- What a chain may become. -/
structure Chain.Grows (c c' : Chain) : Prop where
  epochs : ∀ index e, c.epochs index = some e → ∃ e', c'.epochs index = some e' ∧ Evolves e e'
  opens : ∀ index, (c.opens index).Subperm (c'.opens index)
  paid : ∀ index, (c.paid index).Subperm (c'.paid index)
  signed : ∀ tx ∈ c.signed, tx ∈ c'.signed

theorem Chain.Grows.refl (c : Chain) : c.Grows c where
  epochs _ e he := ⟨e, he, Evolves.refl e⟩
  opens _ := List.Subperm.refl _
  paid _ := List.Subperm.refl _
  signed _ h := h

theorem Chain.Grows.trans {c c' c'' : Chain} (h : c.Grows c') (h' : c'.Grows c'') :
    c.Grows c'' where
  epochs := by
    intro index e he
    obtain ⟨e', he', hev⟩ := h.epochs index e he
    obtain ⟨e'', he'', hev'⟩ := h'.epochs index e' he'
    exact ⟨e'', he'', hev.trans hev'⟩
  opens index := (h.opens index).trans (h'.opens index)
  paid index := (h.paid index).trans (h'.paid index)
  signed tx htx := h'.signed tx (h.signed tx htx)

/-! ### What landing does -/

/-- What an accepted instruction does to its epoch. -/
inductive Accepted (env : KeeperEnv) (c : Chain) : Payload → Epoch → Prop
  | opened {args : OpenEpochArgs} (fresh : c.epochs args.index.toNat = none)
      (window : args.startTs < args.endTs) :
      Accepted env c (.openEpoch args) (openedEpoch env.coinMint args)
  | pushed {index : Nat} {items : List PayoutItem} {e : Epoch} {amount : UInt64}
      (he : c.epochs index = some e) (unfinalized : e.finalized = false)
      (add : amount.toNat = e.pushedAmount.toNat + planTotal (items.map planItem))
      (le : amount.toNat ≤ e.totalAmount.toNat) :
      Accepted env c (.pushPayouts index items) { e with pushedAmount := amount }
  | closed {index : Nat} {merkleRoot : Bytes32} {merkleTotal : UInt64} {e : Epoch}
      (he : c.epochs index = some e) (unfinalized : e.finalized = false)
      (le : e.pushedAmount.toNat + merkleTotal.toNat ≤ e.totalAmount.toNat) :
      Accepted env c (.finalizeEpoch index merkleRoot merkleTotal)
        { e with merkleRoot, merkleTotal, finalized := true }

theorem toOption_eq_some {ε α : Type} {x : Except ε α} {a : α} (h : x.toOption = some a) :
    x = .ok a := by
  cases x with
  | error _ => cases h
  | ok b =>
      cases h
      rfl

theorem accepted_of_record {env : KeeperEnv} {c : Chain} {payload : Payload} {e' : Epoch}
    (h : record env c payload = some e') : Accepted env c payload e' := by
  cases payload with
  | openEpoch args =>
      simp only [record, Option.ite_none_right_eq_some] at h
      obtain ⟨⟨-, hfresh⟩, h⟩ := h
      have hopen := toOption_eq_some h
      have hrecord := hopen
      unfold recordOpen at hopen
      obtain ⟨-, hopen⟩ := require_bind_eq_ok.mp hopen
      obtain ⟨-, hopen⟩ := require_bind_eq_ok.mp hopen
      obtain ⟨hwindow, -⟩ := require_bind_eq_ok.mp hopen
      rw [recordOpen_ok hrecord]
      exact .opened hfresh hwindow
  | pushPayouts index items =>
      obtain ⟨e, he, h⟩ := Option.bind_eq_some_iff.mp h
      obtain ⟨hfin, pushed, hafter, rfl⟩ := recordPush_ok (toOption_eq_some h)
      obtain ⟨hadd, hle⟩ := pushedAfter_ok hafter
      rw [itemTotal_eq] at hadd
      exact .pushed he hfin hadd hle
  | finalizeEpoch index merkleRoot merkleTotal =>
      obtain ⟨e, he, h⟩ := Option.bind_eq_some_iff.mp h
      obtain ⟨hfin, hle, rfl⟩ := recordFinalize_ok (toOption_eq_some h)
      exact .closed he hfin hle

/-! ### The chain's invariant -/

/-- What an epoch account holds is what landed made of it. -/
structure EpochFacts (c : Chain) (index : Nat) (e : Epoch) : Prop where
  opened : ∃ args plan, c.opens index = [(args, plan)] ∧ e.startTs = args.startTs ∧
    e.endTs = args.endTs ∧ e.totalAmount = args.totalAmount
  place : e.index.toNat = index
  window : e.startTs < e.endTs
  pushed : e.pushedAmount.toNat = planTotal (c.paid index)
  closed : e.finalized = true → ∃ tx, c.closings index = [(e.merkleRoot, e.merkleTotal, tx)] ∧
    e.pushedAmount.toNat + e.merkleTotal.toNat ≤ e.totalAmount.toNat
  unclosed : e.finalized = false → c.closings index = []

/-- Nothing landed of an epoch that is not there. -/
structure Untouched (c : Chain) (index : Nat) : Prop where
  opens : c.opens index = []
  paid : c.paid index = []
  closings : c.closings index = []

structure ChainInv (c : Chain) : Prop where
  facts : ∀ index e, c.epochs index = some e → EpochFacts c index e
  untouched : ∀ index, c.epochs index = none → Untouched c index

section Landing

variable {env : KeeperEnv} {c c' : Chain} {sig index : Nat} {s : Sent PayoutTx} {e e' : Epoch}

/-- What a chain shows of an epoch. -/
structure SameEpoch (c c' : Chain) (index : Nat) : Prop where
  epochs : c'.epochs index = c.epochs index
  opens : c'.opens index = c.opens index
  paid : c'.paid index = c.paid index
  closings : c'.closings index = c.closings index

theorem EpochFacts.congr (h : EpochFacts c index e) (hs : SameEpoch c c' index) :
    EpochFacts c' index e where
  opened := by
    rw [hs.opens]
    exact h.opened
  place := h.place
  window := h.window
  pushed := by
    rw [hs.paid]
    exact h.pushed
  closed := by
    rw [hs.closings]
    exact h.closed
  unclosed := by
    rw [hs.closings]
    exact h.unclosed

theorem Untouched.congr (h : Untouched c index) (hs : SameEpoch c c' index) : Untouched c' index :=
  ⟨hs.opens.trans h.opens, hs.paid.trans h.paid, hs.closings.trans h.closings⟩

/-- A chain that shows the same of every epoch but one. -/
theorem ChainInv.of_same (h : ChainInv c) (hs : ∀ i, i ≠ index → SameEpoch c c' i)
    (hfacts : ∀ e, c'.epochs index = some e → EpochFacts c' index e)
    (hnone : c'.epochs index = none → Untouched c' index) : ChainInv c' := by
  constructor
  · intro i e he
    by_cases hi : i = index
    · subst hi
      exact hfacts e he
    · rw [(hs i hi).epochs] at he
      exact (h.facts i e he).congr (hs i hi)
  · intro i he
    by_cases hi : i = index
    · subst hi
      exact hnone he
    · rw [(hs i hi).epochs] at he
      exact (h.untouched i he).congr (hs i hi)

theorem sameEpoch_submit (c : Chain) (tx : PayoutTx) (i : Nat) : SameEpoch c (c.submit tx) i where
  epochs := rfl
  opens := landedOf_send
  paid := landedOf_send
  closings := landedOf_send

/-- Another epoch than the one a transaction is about. -/
theorem sameEpoch_land (hs : c.txs[sig]? = some s) (hp : s.status = .pending) {i : Nat}
    (hi : s.message.payload.index ≠ i) :
    SameEpoch c (c.land sig s.message.payload.index e) i where
  epochs := Function.update_of_ne (Ne.symm hi) _ _
  opens := landedOf_land_of_nil hs hp (opensOf_of_ne hi)
  paid := landedOf_land_of_nil hs hp (itemsOf_of_ne hi)
  closings := landedOf_land_of_nil hs hp (closingsOf_of_ne hi)

theorem ChainInv.submit (h : ChainInv c) (tx : PayoutTx) : ChainInv (c.submit tx) :=
  ⟨fun i e he => (h.facts i e he).congr (sameEpoch_submit c tx i),
    fun i he => (h.untouched i he).congr (sameEpoch_submit c tx i)⟩

/-- A landing keeps the invariant. -/
theorem ChainInv.land (h : ChainInv c) (hs : c.txs[sig]? = some s) (hp : s.status = .pending)
    (hrecord : record env c s.message.payload = some e') :
    ChainInv (c.land sig s.message.payload.index e') := by
  have hopens : (c.land sig s.message.payload.index e').opens s.message.payload.index |>.Perm
      (opensOf s.message.payload.index s.message ++ c.opens s.message.payload.index) :=
    landedOf_land hs hp
  have hpaid : (c.land sig s.message.payload.index e').paid s.message.payload.index |>.Perm
      (itemsOf s.message.payload.index s.message ++ c.paid s.message.payload.index) :=
    landedOf_land hs hp
  have hclosings : (c.land sig s.message.payload.index e').closings s.message.payload.index |>.Perm
      (closingsOf s.message.payload.index s.message ++ c.closings s.message.payload.index) :=
    landedOf_land hs hp
  have hself : (c.land sig s.message.payload.index e').epochs s.message.payload.index = some e' :=
    Function.update_self ..
  refine h.of_same (fun i hi => sameEpoch_land hs hp (Ne.symm hi)) ?_ ?_
  · intro e hlast
    obtain rfl := Option.some.inj (hself.symm.trans hlast)
    have haccepted := accepted_of_record hrecord
    generalize hpayload : s.message.payload = payload at *
    cases haccepted with
    | @opened args hfresh hwindow =>
        -- the first transaction that lands for this index
        have hold := h.untouched _ hfresh
        simp only [opensOf, itemsOf, closingsOf, hpayload, Payload.index, hold.opens, hold.paid,
          hold.closings, if_true, List.append_nil, List.perm_singleton, List.perm_nil]
          at hopens hpaid hclosings
        exact {
          opened := ⟨args, s.message.plan, hopens, rfl, rfl, rfl⟩
          place := rfl
          window := hwindow
          pushed := by
            simp only [Payload.index, hpaid]
            rfl
          closed := nofun
          unclosed := fun _ => hclosings }
    | @pushed index items e amount he hfin hadd hle =>
        have hold := h.facts _ _ he
        simp only [opensOf, itemsOf, closingsOf, hpayload, Payload.index,
          hold.unclosed hfin, if_true,
          List.append_nil, List.nil_append, List.perm_nil] at hopens hpaid hclosings
        obtain ⟨args, plan, hopened, hfields⟩ := hold.opened
        rw [hopened, List.perm_singleton] at hopens
        exact {
          opened := ⟨args, plan, hopens, hfields⟩
          place := hold.place
          window := hold.window
          pushed := by
            have htotal := planTotal_perm hpaid
            rw [planTotal_append] at htotal
            simp only [Payload.index, htotal, hadd, hold.pushed]
            omega
          closed := fun hclosed => by
            rw [hfin] at hclosed
            cases hclosed
          unclosed := fun _ => hclosings }
    | @closed index root total e he hfin hle =>
        have hold := h.facts _ _ he
        simp only [opensOf, itemsOf, closingsOf, hpayload, Payload.index,
          hold.unclosed hfin, if_true,
          List.append_nil, List.nil_append, List.perm_singleton] at hopens hpaid hclosings
        obtain ⟨args, plan, hopened, hfields⟩ := hold.opened
        rw [hopened, List.perm_singleton] at hopens
        exact {
          opened := ⟨args, plan, hopens, hfields⟩
          place := hold.place
          window := hold.window
          pushed := hold.pushed.trans (planTotal_perm hpaid.symm)
          closed := fun _ => ⟨s.message, hclosings, hle⟩
          unclosed := nofun }
  · intro hnone
    rw [hself] at hnone
    cases hnone

/-- What is accepted evolves from the account that was there. -/
theorem Accepted.evolves {payload : Payload} (h : Accepted env c payload e')
    (he : c.epochs payload.index = some e) : Evolves e e' := by
  cases h with
  | opened hfresh _ =>
      rw [Payload.index] at he
      rw [hfresh] at he
      cases he
  | pushed he' _ hadd _ =>
      obtain rfl := Option.some.inj (he'.symm.trans he)
      exact ⟨rfl, rfl, rfl, rfl, by simp only; omega, fun h => h⟩
  | closed he' _ _ =>
      obtain rfl := Option.some.inj (he'.symm.trans he)
      exact ⟨rfl, rfl, rfl, rfl, le_rfl, fun _ => rfl⟩

theorem signed_settle : (c.land sig index e).signed = c.signed := messages_settle

theorem Chain.Grows.land (hs : c.txs[sig]? = some s) (hp : s.status = .pending)
    (hrecord : record env c s.message.payload = some e') :
    c.Grows (c.land sig s.message.payload.index e') := by
  constructor
  · intro i e he
    by_cases hi : i = s.message.payload.index
    · subst hi
      exact ⟨e', Function.update_self .., (accepted_of_record hrecord).evolves he⟩
    · exact ⟨e, (Function.update_of_ne hi _ _).trans he, Evolves.refl e⟩
  · intro i
    have hperm : ((c.land sig s.message.payload.index e').opens i).Perm
        (opensOf i s.message ++ c.opens i) := landedOf_land hs hp
    exact (List.sublist_append_right _ _).subperm.trans hperm.symm.subperm
  · intro i
    have hperm : ((c.land sig s.message.payload.index e').paid i).Perm
        (itemsOf i s.message ++ c.paid i) := landedOf_land hs hp
    exact (List.sublist_append_right _ _).subperm.trans hperm.symm.subperm
  · intro tx htx
    rw [signed_settle]
    exact htx

theorem Chain.Grows.submit (c : Chain) (tx : PayoutTx) : c.Grows (c.submit tx) where
  epochs _ e he := ⟨e, he, Evolves.refl e⟩
  opens i := by
    rw [(sameEpoch_submit c tx i).opens]
  paid i := by
    rw [(sameEpoch_submit c tx i).paid]
  signed tx' htx' := by
    unfold Chain.signed Chain.submit
    rw [messages_send]
    exact List.mem_append_left _ htx'

theorem ChainInv.of_eq (h : ChainInv c) (hepochs : c'.epochs = c.epochs) (htxs : c'.txs = c.txs) :
    ChainInv c' := by
  have hsame : ∀ i, SameEpoch c c' i := by
    intro i
    refine ⟨by rw [hepochs], ?_, ?_, ?_⟩
    all_goals simp only [Chain.opens, Chain.paid, Chain.closings, htxs]
  constructor
  · intro i e he
    rw [hepochs] at he
    exact (h.facts i e he).congr (hsame i)
  · intro i he
    rw [hepochs] at he
    exact (h.untouched i he).congr (hsame i)

theorem Chain.Grows.of_eq (hepochs : c'.epochs = c.epochs) (htxs : c'.txs = c.txs) :
    c.Grows c' where
  epochs i e he := ⟨e, by rw [hepochs, he], Evolves.refl e⟩
  opens i := by simp only [Chain.opens, htxs, List.Subperm.refl]
  paid i := by simp only [Chain.paid, htxs, List.Subperm.refl]
  signed tx h := by simpa only [Chain.signed, htxs] using h

/-- Claims change nothing that landed here did. -/
theorem ChainInv.claim (h : ChainInv c) (he : c.epochs index = some e) {claimed : UInt64} :
    ChainInv (c.setEpoch index { e with claimedAmount := claimed }) := by
  have hself : (c.setEpoch index { e with claimedAmount := claimed }).epochs index =
      some { e with claimedAmount := claimed } := Function.update_self ..
  refine h.of_same (fun i hi => ⟨Function.update_of_ne hi _ _, rfl, rfl, rfl⟩) ?_ ?_
  · intro e' he'
    obtain rfl := Option.some.inj (hself.symm.trans he')
    have hold := h.facts index e he
    exact ⟨hold.opened, hold.place, hold.window, hold.pushed, hold.closed, hold.unclosed⟩
  · intro hnone
    rw [hself] at hnone
    cases hnone

theorem Chain.Grows.claim (he : c.epochs index = some e) {claimed : UInt64} :
    c.Grows (c.setEpoch index { e with claimedAmount := claimed }) where
  epochs := by
    intro i e' he'
    by_cases hi : i = index
    · subst hi
      obtain rfl := Option.some.inj (he.symm.trans he')
      exact ⟨_, Function.update_self .., rfl, rfl, rfl, rfl, le_rfl, fun h => h⟩
    · exact ⟨e', (Function.update_of_ne hi _ _).trans he', Evolves.refl e'⟩
  opens _ := List.Subperm.refl _
  paid _ := List.Subperm.refl _
  signed _ h := h

/-- What happens without the keeper keeps the invariant, lets the chain grow and sends nothing. -/
theorem chainStep_spec {ev : ChainEvent} (h : chainStep env c ev = some c') (hc : ChainInv c) :
    ChainInv c' ∧ c.Grows c' ∧ Later c.txs c'.txs := by
  cases ev with
  | land sig =>
      obtain ⟨s, hs, h⟩ := Option.bind_eq_some_iff.mp h
      obtain ⟨hp, h⟩ := Option.ite_none_right_eq_some.mp h
      obtain ⟨e, hrecord, h⟩ := Option.bind_eq_some_iff.mp h
      cases h
      exact ⟨hc.land hs hp hrecord, .land hs hp hrecord, settle_later hs hp⟩
  | expire sig =>
      obtain ⟨s, hs, h⟩ := Option.bind_eq_some_iff.mp h
      obtain ⟨hp, h⟩ := Option.ite_none_right_eq_some.mp h
      cases h
      have hsame : ∀ i, SameEpoch c { c with txs := settle c.txs sig .expired } i := fun i =>
        ⟨rfl, landedOf_expire hs hp, landedOf_expire hs hp, landedOf_expire hs hp⟩
      refine ⟨⟨?_, ?_⟩, ⟨?_, ?_, ?_, ?_⟩, settle_later hs hp⟩
      · intro i e he
        exact (hc.facts i e he).congr (hsame i)
      · intro i he
        exact (hc.untouched i he).congr (hsame i)
      · intro i e he
        exact ⟨e, he, Evolves.refl e⟩
      · intro i
        rw [(hsame i).opens]
      · intro i
        rw [(hsame i).paid]
      · intro tx htx
        unfold Chain.signed
        rw [messages_settle]
        exact htx
  | tick now =>
      obtain ⟨-, h⟩ := Option.ite_none_right_eq_some.mp h
      cases h
      exact ⟨hc.of_eq rfl rfl, .of_eq rfl rfl, .refl _⟩
  | configure config =>
      cases h
      exact ⟨hc.of_eq rfl rfl, .of_eq rfl rfl, .refl _⟩
  | claim index claimed =>
      obtain ⟨e, he, h⟩ := Option.bind_eq_some_iff.mp h
      obtain ⟨-, h⟩ := Option.ite_none_right_eq_some.mp h
      cases h
      exact ⟨hc.claim he, .claim he, .refl _⟩

/-- What a confirmed transaction leaves. -/
theorem Chain.confirm_eq {tx : PayoutTx} (h : c.confirm env tx = some c') :
    ∃ e, record env c tx.payload = some e ∧
      c' = (c.submit tx).land c.txs.length tx.payload.index e := by
  obtain ⟨e, hrecord, rfl⟩ := Option.map_eq_some_iff.mp h
  exact ⟨e, hrecord, rfl⟩

/-- A confirmed transaction pays its items. -/
theorem Chain.paid_confirm {tx : PayoutTx} (h : c.confirm env tx = some c') (i : Nat) :
    (c'.paid i).Perm (itemsOf i tx ++ c.paid i) := by
  obtain ⟨e, -, rfl⟩ := Chain.confirm_eq h
  have hs : (c.submit tx).txs[c.txs.length]? =
    some { message := tx, status := .pending } := get_send_self
  have hperm : ((c.submit tx).land c.txs.length tx.payload.index e |>.paid i).Perm
      (itemsOf i tx ++ (c.submit tx).paid i) := landedOf_land hs rfl
  rwa [(sameEpoch_submit c tx i).paid] at hperm

theorem Chain.confirm_spec {tx : PayoutTx} (h : c.confirm env tx = some c') (hc : ChainInv c) :
    ChainInv c' ∧ c.Grows c' := by
  obtain ⟨e, hrecord, rfl⟩ := Chain.confirm_eq h
  have hs : (c.submit tx).txs[c.txs.length]? =
    some { message := tx, status := .pending } := get_send_self
  have hrecord' : record env (c.submit tx) tx.payload = some e := hrecord
  exact ⟨(hc.submit tx).land hs rfl hrecord',
    (Chain.Grows.submit c tx).trans (.land hs rfl hrecord')⟩

end Landing

end IceMarkets.Keeper
