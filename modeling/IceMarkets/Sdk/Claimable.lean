import IceMarkets.Sdk.Proofs
import IceMarkets.Distributor.Claims
import Mathlib.Data.List.Nodup
import Mathlib.Data.List.Perm.Subperm

/-!
# IceMarkets.Sdk.Claimable

Every entry of a claim tree can be claimed on chain, once.

The builder's proofs convince the verifier; the accounting never stands in the way,
because the receipts of an epoch are distinct entries of its tree, whose sum is what
`finalize_epoch` promised.
-/

namespace IceMarkets.Sdk

open Distributor Lts

/-! ### Definitions -/

/-- An entry, as the receipts and the payouts name it. -/
def Entry.item (e : Entry) : PayoutItem where
  wallet := e.wallet
  amount := e.amount

/-- The claim of an entry. -/
def claimOf (e : Entry) (proof : List Bytes32) (now : Int) : ClaimInput where
  now := now
  wallet := e.wallet
  amount := e.amount
  proof := proof

/-- `tree` was posted by `finalize_epoch`, and the steps `tr` since then claimed nothing
but its entries. -/
def Published (env : EpochEnv) (tree : EpochMerkleTree) (tr : List Event)
    (s : Distribution) (clock : Int) : Prop :=
  ∃ s₀ clock₀ tr₀ now s₁ clock₁, s₀.epoch = none ∧ s₀.claimed = [] ∧
    EpochRun env (s₀, clock₀) (tr₀ ++ [⟨now, .finalized tree.root (UInt64.ofNat tree.total)⟩])
      (s₁, clock₁) ∧
    EpochRun env (s₁, clock₁) tr (s, clock) ∧ ∀ item ∈ claims tr, item ∈ tree.entries.map Entry.item

/-- While the program is not paused and claims are open, the entry's claim is accepted if
the steps `tr` have not claimed it, and refused if they have. Only the claimant's own
token account can keep it from being accepted. -/
def ClaimableOnce (env : EpochEnv) (tr : List Event) (s : Distribution) (clock : Int) (e : Entry)
    (proof : List Bytes32) : Prop :=
  ∀ now, clock ≤ now → s.config.paused = false →
    (∀ ep, s.epoch = some ep → now ≤ satAddI64 ep.endTs sweepDelaySecs) →
    (e.item ∈ claims tr → ¬ Accepted (handleClaim env s (claimOf e proof now))) ∧
      (e.item ∉ claims tr →
        (∀ err, handleClaim env s (claimOf e proof now) ≠ .error (.custom err)) ∧
          (AtaReady env s e.wallet → Accepted (handleClaim env s (claimOf e proof now))))

/-! ### The promise covers the entries -/

/-- Items of distinct wallets, all of them entries, add up to no more than the entries. -/
theorem itemTotal_le {items entries : List PayoutItem} (hnodup : (items.map (·.wallet)).Nodup)
    (hsub : ∀ item ∈ items, item ∈ entries) : itemTotal items ≤ itemTotal entries := by
  obtain ⟨l, hperm, hsublist⟩ := (List.Nodup.of_map _ hnodup).subperm hsub
  have hsum : itemTotal l = itemTotal items := (hperm.map _).sum_eq
  rw [← hsum]
  exact (hsublist.map _).sum_le_sum fun _ _ => Nat.zero_le _

theorem itemTotal_entries (entries : List Entry) :
    itemTotal (entries.map Entry.item) = (entries.map fun e => e.amount.toNat).sum := by
  unfold itemTotal
  rw [List.map_map]
  rfl

/-- Entries with one wallet are one entry. -/
theorem eq_of_wallet {entries : List Entry} (hnodup : (entries.map (·.wallet)).Nodup) {e e' : Entry}
    (he : e ∈ entries) (he' : e' ∈ entries) (h : e.wallet = e'.wallet) : e = e' :=
  List.inj_on_of_nodup_map hnodup he he' h

section Claims

variable {env : EpochEnv} {tree : EpochMerkleTree} {tr : List Event}
  {s : Distribution} {clock : Int}

/-- What is known of an epoch whose tree was posted. -/
theorem Published.promised (h : Published env tree tr s clock) :
    Promised env tree.root (UInt64.ofNat tree.total) s ∧ s.receipts = (claims tr).reverse ∧
      (s.book env).Valid ∧ ((s.book env).Funded ∨ (s.book env).Settled clock) := by
  obtain ⟨s₀, clock₀, tr₀, now, s₁, clock₁, hfresh, hclaimed, hrun, hrun', -⟩ := h
  obtain ⟨hpromised, hnone⟩ := promised_of_run hfresh hclaimed hrun
  have hreceipts := hrun'.receipts
  dsimp only at hreceipts
  rw [hnone, List.append_nil] at hreceipts
  obtain ⟨hvalid, hfunded⟩ := book_fresh env hfresh
  have hbook := EpochRun.book (hrun.append hrun')
  exact ⟨hpromised.run hrun', hreceipts, Escrow.valid_of_run hbook hvalid,
    Escrow.funded_or_settled_of_run hbook hfunded⟩

/-- An entry that was not claimed passes every check of its claim. -/
theorem Published.checked (h : Published env tree tr s clock)
    (htree : TreeOf env.keccak256 env.epochKey tree) (hsum : tree.total < 2 ^ 64) {e : Entry}
    (he : e ∈ tree.entries) (hnew : e.item ∉ claims tr) {proof : List Bytes32} {now : Int}
    (hopen : ∀ ep, s.epoch = some ep → now ≤ satAddI64 ep.endTs sweepDelaySecs)
    (hverify : verify env.keccak256 proof tree.root
      (leaf env.keccak256 env.epochKey e.wallet e.amount) = true) :
    ∃ ep, ClaimChecked env s (claimOf e proof now) ep := by
  obtain ⟨hpromised, hreceipts, -, -⟩ := h.promised
  obtain ⟨-, -, -, -, -, -, -, -, -, -, hentries⟩ := h
  obtain ⟨⟨ep, hep, hfin, hroot, htotal, hclaimed⟩, hnodup, -⟩ := hpromised
  have hfresh : e.wallet ∉ s.receipts.map (·.wallet) := by
    -- a receipt of the wallet would be this very entry
    intro hmem
    obtain ⟨item, hitem, hwallet⟩ := List.mem_map.mp hmem
    rw [hreceipts, List.mem_reverse] at hitem
    obtain ⟨e', he', rfl⟩ := List.mem_map.mp (hentries item hitem)
    rw [eq_of_wallet htree.nodup he he' hwallet.symm] at hnew
    exact hnew hitem
  have hcover : itemTotal (e.item :: s.receipts) ≤ itemTotal (tree.entries.map Entry.item) := by
    refine itemTotal_le (List.nodup_cons.mpr ⟨hfresh, hnodup⟩) ?_
    intro item hitem
    rcases List.mem_cons.mp hitem with rfl | hitem
    · exact List.mem_map_of_mem he
    · rw [hreceipts, List.mem_reverse] at hitem
      exact hentries item hitem
  refine ⟨ep, hep, hfin, ?_, hopen ep hep, ?_, ?_⟩
  · intro c hc heq
    refine hfresh (List.mem_map.mpr ⟨⟨c.wallet, c.amount⟩, ?_, heq⟩)
    exact List.mem_map.mpr ⟨c, hc, rfl⟩
  · rw [hroot]
    exact hverify
  · rw [itemTotal_entries, ← htree.total] at hcover
    rw [htotal, UInt64.toNat_ofNat', Nat.mod_eq_of_lt hsum, hclaimed]
    simp only [itemTotal, List.map_cons, List.sum_cons] at hcover ⊢
    change _ + e.amount.toNat ≤ _
    change e.amount.toNat + _ ≤ _ at hcover
    omega

theorem Published.claimableOnce (h : Published env tree tr s clock)
    (htree : TreeOf env.keccak256 env.epochKey tree) (hsum : tree.total < 2 ^ 64) {e : Entry}
    (he : e ∈ tree.entries) (hpos : 0 < e.amount.toNat) {proof : List Bytes32}
    (hlen : proof.length ≤ maxProofLen)
    (hverify : verify env.keccak256 proof tree.root
      (leaf env.keccak256 env.epochKey e.wallet e.amount) = true) :
    ClaimableOnce env tr s clock e proof := by
  intro now hnow hpaused hopen
  obtain ⟨hpromised, hreceipts, hvalid, hfunds⟩ := h.promised
  constructor
  · intro hdone
    rw [← List.mem_reverse, ← hreceipts] at hdone
    obtain ⟨c, hc, heq⟩ := List.mem_map.mp hdone
    have hmem : (claimOf e proof now).wallet ∈ (s.book env).claimants := by
      rw [book_claimants]
      exact List.mem_map.mpr ⟨c, hc, congrArg PayoutItem.wallet heq⟩
    exact not_accepted_second_claim hmem
  · intro hnew
    obtain ⟨ep, hchecked⟩ := h.checked htree hsum he hnew hopen hverify
    refine ⟨handleClaim_ne_custom hchecked hpromised.vault hpaused hpos hlen, fun hata => ?_⟩
    refine accepted_handleClaim hchecked hpromised.vault hpaused hpos hlen ?_ hata
    -- the vault holds what the tree promises and nobody claimed
    have hle := hchecked.total_le
    have hopen := hchecked.open_until
    have hbook : s.book env = _ := book_of_some hchecked.epoch
    rcases hfunds with hfunds | hsettled
    · have htotal := hvalid.total_le
      unfold Escrow.Book.Funded at hfunds
      rw [hbook] at hfunds htotal
      dsimp only at hfunds htotal
      omega
    · have hlate := hsettled.late
      rw [hbook] at hlate
      change now ≤ _ at hopen
      dsimp only at hlate
      omega

end Claims

/-- Every payout entry is claimable. The builder makes a tree of any entries with
distinct wallets and positive amounts whose sum fits a `u64`; each entry has a proof of
at most `⌈log₂ n⌉ ≤ 32` digests that the program's verifier accepts; and once the tree
was posted, whatever happened since and in whatever order the entries were claimed,
each can be claimed exactly once. -/
theorem every_entry_claimable (env : EpochEnv) {entries : List Entry} (hne : entries ≠ [])
    (hcount : entries.length ≤ 2 ^ 32) (hnodup : (entries.map (·.wallet)).Nodup)
    (hpos : ∀ e ∈ entries, 0 < e.amount.toNat)
    (hsum : (entries.map fun e => e.amount.toNat).sum < 2 ^ 64) :
    ∃ tree, buildEpochTree env.keccak256 env.epochKey.bytes (entries.map Entry.raw) = .ok tree ∧
      tree.total = (entries.map fun e => e.amount.toNat).sum ∧
      ∀ (i : Nat) (e : Entry), entries[i]? = some e →
        ∃ proof, getProof tree.toMerkleTree i = .ok proof ∧
        proof.length ≤ Nat.clog 2 entries.length ∧ Nat.clog 2 entries.length ≤ 32 ∧
        verify env.keccak256 proof tree.root
          (leaf env.keccak256 env.epochKey e.wallet e.amount) = true ∧
        ∀ tr s clock, Published env tree tr s clock → ClaimableOnce env tr s clock e proof := by
  obtain ⟨tree, hbuild, rfl, htree⟩ := exists_buildEpochTree env.keccak256 env.epochKey hne
    hnodup
  refine ⟨tree, hbuild, htree.total, ?_⟩
  intro i e hi
  obtain ⟨proof, hproof, hlen, hverify⟩ := getProof_accepted htree hi
  have hdepth : Nat.clog 2 tree.entries.length ≤ 32 := Nat.clog_le_of_le_pow hcount
  have hmem : e ∈ tree.entries := List.mem_of_getElem? hi
  refine ⟨proof, hproof, hlen, hdepth, hverify, ?_⟩
  intro tr s clock hpublished
  rw [← htree.total] at hsum
  exact hpublished.claimableOnce htree hsum hmem (hpos e hmem) (hlen.trans hdepth) hverify

namespace Sample

open Distributor.Sample

/-- `walletA` claims first. -/
def claimA : ClaimInput := claimOf { wallet := walletA, amount := 10 } [leafB, leafC] 2000

def claimedA : Distribution :=
  (acceptedValue (handleClaim env finalized claimA) (by decide +kernel)).1

theorem published_tree : Published env tree [⟨2000, .claimed walletA 10⟩] claimedA 2000 := by
  have hclaim : Step env finalized ⟨2000, .claimed walletA 10⟩ claimedA :=
    .claim (x := claimA) (eq_ok_acceptedValue (by decide +kernel)) (by decide)
  refine ⟨fresh, 1000, [⟨1000, .opened 100⟩, ⟨1100, .pushed [{ wallet := walletD, amount := 30 }]⟩],
    1200, finalized, 1200, rfl, rfl, run_finalized, .single (hclaim.clocked (by decide)), ?_⟩
  decide +kernel

end Sample

/-- After the sample tree was posted and `walletA` claimed, `walletC` claims with the
proof of its carried leaf. -/
theorem every_entry_claimable_sample :
    ∃ proof, getProof Sample.tree.toMerkleTree 2 = .ok proof ∧
      Accepted (handleClaim Distributor.Sample.env Sample.claimedA
        (claimOf { wallet := Distributor.Sample.walletC, amount := 30 } proof 3000)) := by
  have hne : Sample.entries ≠ [] := by decide
  obtain ⟨tree, hbuild, -, hclaim⟩ := every_entry_claimable Distributor.Sample.env hne (by decide)
    (by decide +kernel) (by decide) (by decide)
  cases Sample.buildEpochTree_entries.symm.trans hbuild
  obtain ⟨proof, hproof, -, -, -, honce⟩ := hclaim 2 _ rfl
  have hready : AtaReady Distributor.Sample.env Sample.claimedA Distributor.Sample.walletC :=
    ⟨Or.inl (by decide +kernel), by decide +kernel⟩
  refine ⟨proof, hproof, ((honce _ _ _ Sample.published_tree 3000 (by decide) rfl ?_).2
    (by decide +kernel)).2 hready⟩
  intro ep hep
  cases hep
  decide +kernel

end IceMarkets.Sdk
