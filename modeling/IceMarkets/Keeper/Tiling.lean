import IceMarkets.Keeper.Cycle
import IceMarkets.Lib.Tiling

/-!
# IceMarkets.Keeper.Tiling

The epochs of a pool tile time, in every run of its keeper.

The window of an `open_epoch` follows a closed epoch from the moment it is signed, and
what it follows stays closed; so it does not matter when the transaction lands. That a
later one for the same index cannot land is the program's doing: the account exists.
-/

namespace IceMarkets.Keeper

open Distributor Sdk InFlight Async Tiling

/-- The epochs are there without gaps, each behind a closed one that ended where it starts,
and every second from the first on to the last is in the window of exactly one. -/
structure Tiles (c : Chain) : Prop where
  count : ∃ n, ∀ i, (∃ e, c.epochs i = some e) ↔ i < n
  closed : ∀ i e', c.epochs (i + 1) = some e' →
    ∃ e, c.epochs i = some e ∧ e.finalized = true ∧ e'.startTs = e.endTs
  once : ∀ t, (∃ i e, c.epochs i = some e ∧ e.startTs ≤ t) →
    (∃ i e, c.epochs i = some e ∧ t < e.endTs) →
    ∃! i, ∃ e, c.epochs i = some e ∧ e.startTs ≤ t ∧ t < e.endTs

/-- What a run keeps of the windows: those of the epochs, and those of the transactions. -/
structure Follow (c : Chain) : Prop where
  count : ∃ n, ∀ i, (∃ e, c.epochs i = some e) ↔ i < n
  epochs : ∀ i e, c.epochs i = some e → Follows c i e.startTs
  txs : ∀ tx ∈ c.signed, ∀ args, tx.payload = .openEpoch args →
    Follows c args.index.toNat args.startTs

section Runs

variable {env : KeeperEnv} {c c' : Chain}

/-- A chain whose epochs keep their places and windows. -/
theorem Follow.of_grows (h : Follow c) (hg : c.Grows c') (hsigned : c'.signed = c.signed)
    (hback : ∀ i e', c'.epochs i = some e' → ∃ e, c.epochs i = some e ∧ e'.startTs = e.startTs) :
    Follow c' := by
  refine ⟨?_, ?_, ?_⟩
  · obtain ⟨n, hn⟩ := h.count
    refine ⟨n, fun i => ⟨?_, fun hi => exists_epoch_of_grows hg ((hn i).mpr hi)⟩⟩
    intro hx
    obtain ⟨e', he'⟩ := hx
    obtain ⟨e, he, -⟩ := hback i e' he'
    exact (hn i).mp ⟨e, he⟩
  · intro i e' he'
    obtain ⟨e, he, hstart⟩ := hback i e' he'
    rw [hstart]
    exact (h.epochs i e he).grows hg
  · intro tx htx args hp
    rw [hsigned] at htx
    exact (h.txs tx htx args hp).grows hg

/-- The next index is the number of epochs. -/
theorem Follow.next {startTs : Int} {index n : Nat} (hn : ∀ i, (∃ e, c.epochs i = some e) ↔ i < n)
    (h : Follows c index startTs) (hfresh : c.epochs index = none) : index = n := by
  have hge : ¬index < n := by
    intro hlt
    obtain ⟨e, he⟩ := (hn index).mpr hlt
    rw [hfresh] at he
    cases he
  cases index with
  | zero => omega
  | succ k =>
      obtain ⟨e, he, -⟩ := h k rfl
      have hk := (hn k).mp ⟨e, he⟩
      omega

theorem Follow.land (h : Follow c) {sig : Nat} {s : Sent PayoutTx} {e : Epoch}
    (hs : c.txs[sig]? = some s)
    (hp : s.status = .pending) (hrecord : record env c s.message.payload = some e) :
    Follow (c.land sig s.message.payload.index e) := by
  have hg : c.Grows (c.land sig s.message.payload.index e) := .land hs hp hrecord
  have hself : (c.land sig s.message.payload.index e).epochs s.message.payload.index = some e :=
    Function.update_self ..
  have hother : ∀ i, i ≠ s.message.payload.index →
      (c.land sig s.message.payload.index e).epochs i = c.epochs i :=
        fun i hi => Function.update_of_ne hi _ _
  have hsigned : s.message ∈ c.signed := List.mem_map_of_mem (List.mem_of_getElem? hs)
  cases hold : c.epochs s.message.payload.index with
  | some old =>
      -- an epoch that was there keeps its window
      refine h.of_grows hg signed_settle ?_
      intro i e' he'
      by_cases hi : i = s.message.payload.index
      · subst hi
        cases hself.symm.trans he'
        exact ⟨old, hold, ((accepted_of_record hrecord).evolves hold).startTs⟩
      · rw [hother i hi] at he'
        exact ⟨e', he', rfl⟩
  | none =>
      -- the next epoch is opened
      have haccepted := accepted_of_record hrecord
      generalize hpayload : s.message.payload = payload at *
      cases haccepted with
      | pushed he => exact absurd (hold.symm.trans he) nofun
      | closed he => exact absurd (hold.symm.trans he) nofun
      | @opened args hfresh hwindow =>
          have hfollows := h.txs s.message hsigned args hpayload
          obtain ⟨n, hn⟩ := h.count
          obtain rfl := Follow.next hn hfollows hfresh
          refine ⟨⟨args.index.toNat + 1, fun i => ?_⟩, ?_, ?_⟩
          · by_cases hi : i = args.index.toNat
            · subst hi
              exact ⟨fun _ => by omega, fun _ => ⟨_, hself⟩⟩
            · rw [hother i hi, hn i]
              omega
          · intro i e' he'
            by_cases hi : i = args.index.toNat
            · subst hi
              cases hself.symm.trans he'
              exact hfollows.grows hg
            · rw [hother i hi] at he'
              exact (h.epochs i e' he').grows hg
          · intro tx htx args' hp'
            rw [signed_settle] at htx
            exact (h.txs tx htx args' hp').grows hg

/-- Whatever is allowed. -/
def Regime.free (env : KeeperEnv) : Regime env where
  allowed _ _ := True
  kept := False
  fits := False
  once := False
  keeps := nofun
  fitting := nofun
  settled := nofun

theorem follow_kept : KeptInRuns (Regime.free env) fun w => Follow w.chain where
  submit := by
    intro w tx _ hw _ hpre
    have hg := Chain.Grows.submit w.chain tx
    refine ⟨hw.count, fun i e he => (hw.epochs i e he).grows hg, ?_⟩
    intro tx' htx' args hp
    simp only [Chain.signed, Chain.submit, messages_send, List.mem_append,
      List.mem_singleton] at htx'
    rcases htx' with htx' | rfl
    · exact (hw.txs tx' htx' args hp).grows hg
    · rw [SubmitPromise, hp] at hpre
      exact hpre.follows.grows hg
  land w sig s e _ hw hs hp hrecord := hw.land hs hp hrecord
  expire w sig s hw hs hp := by
    refine ⟨hw.count, hw.epochs, ?_⟩
    intro tx htx
    simp only [Chain.signed, messages_settle] at htx
    exact hw.txs tx htx
  claim w index e claimed hw he := by
    refine hw.of_grows (.claim he) rfl ?_
    intro i e' he'
    by_cases hi : i = index
    · subst hi
      cases (Function.update_self ..).symm.trans he'
      exact ⟨e, he, rfl⟩
    · exact ⟨e', (Function.update_of_ne hi _ _).symm.trans he', rfl⟩
  save _ _ _ hw _ _ := hw
  same w w' hw hepochs htxs _ := by
    refine hw.of_grows (.of_eq hepochs htxs) (by simp only [Chain.signed, htxs]) ?_
    intro i e' he'
    rw [hepochs] at he'
    exact ⟨e', he', rfl⟩

/-- Windows that follow one another tile time. -/
theorem Follow.tiles (h : Follow c) (hc : ChainInv c) : Tiles c := by
  obtain ⟨n, hn⟩ := h.count
  have hclosed : ∀ i e', c.epochs (i + 1) = some e' →
      ∃ e, c.epochs i = some e ∧ e.finalized = true ∧ e'.startTs = e.endTs :=
    fun i e' he' => h.epochs (i + 1) e' he' i rfl
  refine ⟨⟨n, hn⟩, hclosed, ?_⟩
  let start (i : Nat) : Int := ((c.epochs i).map (·.startTs)).getD 0
  let stop (i : Nat) : Int := ((c.epochs i).map (·.endTs)).getD 0
  have hstart : ∀ {i e}, c.epochs i = some e → start i = e.startTs :=
    fun he => by simp only [start, he]; rfl
  have hstop : ∀ {i e}, c.epochs i = some e → stop i = e.endTs :=
    fun he => by simp only [stop, he]; rfl
  have hcontiguous : Contiguous start stop n := by
    refine ⟨?_, ?_⟩
    · intro i hi
      obtain ⟨e, he⟩ := (hn i).mpr hi
      rw [hstart he, hstop he]
      exact (hc.facts i e he).window
    · intro i hi
      obtain ⟨e', he'⟩ := (hn (i + 1)).mpr hi
      obtain ⟨e, he, -, heq⟩ := hclosed i e' he'
      rw [hstart he', hstop he, heq]
  intro t hx h'
  obtain ⟨i, e, he, hle⟩ := hx
  obtain ⟨j, e', he', hlt⟩ := h'
  obtain ⟨k, ⟨hk, hkstart, hkstop⟩, hunique⟩ := hcontiguous.existsUnique_window ((hn i).mp ⟨e, he⟩)
    ((hstart he).trans_le hle) ((hn j).mp ⟨e', he'⟩) (hlt.trans_eq (hstop he').symm)
  obtain ⟨ek, hek⟩ := (hn k).mpr hk
  rw [hstart hek] at hkstart
  rw [hstop hek] at hkstop
  refine ⟨k, ⟨ek, hek, hkstart, hkstop⟩, ?_⟩
  intro m hx
  obtain ⟨em, hem, hm⟩ := hx
  exact hunique m ⟨(hn m).mp ⟨em, hem⟩, (hstart hem).trans_le hm.1, hm.2.trans_eq (hstop hem).symm⟩

/-- However the transactions land and whatever becomes of the rows, the epochs tile time. -/
theorem epochs_tile {tr : List (Act PayoutOp Unit PayoutEvent)} {s : PayoutConfig}
    (h : PayoutRun env (fun _ _ => True) tr s) : Tiles s.1.chain := by
  have hempty : ∀ w : PayoutWorld, w.Fresh → Follow w.chain := by
    intro w hw
    refine ⟨⟨0, fun i => ?_⟩, ?_, ?_⟩
    · simp [hw.epochs i]
    · intro i e he
      rw [hw.epochs i] at he
      cases he
    · intro tx htx
      rw [Chain.signed, hw.txs] at htx
      cases htx
  obtain ⟨hinv, hfollow⟩ := PayoutRun.invariant (R := Regime.free env) h follow_kept hempty
  exact hfollow.tiles hinv.chain

end Runs

namespace Sample

/-- One epoch opened, pushed and closed, and the next one opened. -/
def twoEpochs : List (Move Unit PayoutEvent PayoutReply) :=
  .start () :: confirmed 22 ++ [.finish, .env (.chain (.tick 2000)),
    .env (.inputs 80 (some 100000000) none
      [{ wallet := Distributor.Sample.walletA, delta := 5000, ts := 0 }] 2000),
    .start ()] ++ confirmed 13

end Sample

/-- A second epoch behind the first. -/
theorem epochs_tile_sample :
    ∃ tr s, PayoutRun Sample.env (fun _ _ => True) tr s ∧
      (s.1.chain.epochs 1).map (·.startTs) = some 1000 ∧
      Tiles s.1.chain := by
  obtain ⟨tr, s, hrun, hend⟩ := @Machine.exists_run _ _ _ _ _ _ (payoutMachine Sample.env)
    (fun _ => runPayoutsForPool Sample.env)
    (Sample.freshWorld 10000
      [{ wallet := Distributor.Sample.walletA, delta := 5000, ts := 0 }] 60, none)
    (fun _ _ => true) (fun _ _ => True) (fun _ _ _ => trivial) Sample.twoEpochs
    (fun _ s => decide ((s.1.chain.epochs 1).map (·.startTs) = some 1000)) (by decide +kernel)
  have h : PayoutRun Sample.env (fun _ _ => True) tr s := ⟨_, Sample.freshWorld_fresh .., hrun⟩
  exact ⟨tr, s, h, of_decide_eq_true hend, epochs_tile h⟩

end IceMarkets.Keeper
