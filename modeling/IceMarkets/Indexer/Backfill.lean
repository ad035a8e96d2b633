import IceMarkets.Lib.Feed
import IceMarkets.Lib.Run
import Mathlib.Data.List.Sort

/-!
# IceMarkets.Indexer.Backfill

`backfill --resume`: what a run reads of the addresses' signature histories, what it
passes to `ingestTransaction`, and the cursors it records (`backfill.ts`).

The RPC lists an address's signatures newest first, and the list grows while it is paged
through. Every listed transaction can be fetched, so the batches of `TX_BATCH` come to
the whole ordered list.
-/

namespace IceMarkets.Indexer

open Feed

/-! ### Histories -/

/-- `ConfirmedSignatureInfo`. -/
structure SignatureInfo where
  signature : String
  slot : Nat
  err : Bool
  deriving DecidableEq, Repr

/-- What the RPC knows of every address over time, newest first. -/
structure History where
  signatures : (time : Nat) → (address : String) → List SignatureInfo
  grows : ∀ t a, signatures t a <:+ signatures (t + 1) a
  nodup : ∀ t a, ((signatures t a).map (·.signature)).Nodup

/-- `getSignaturesForAddress` max. -/
def PAGE : Nat := 1000

/-- One completed run: its arguments, and when each page of an address is asked for. -/
structure BackfillRun where
  addresses : List String
  limit : Nat
  asked : (address : String) → (page : Nat) → Nat
  finished : Nat
  distinct : addresses.Nodup
  limit_pos : 0 < limit
  asked_mono : ∀ a k, asked a k ≤ asked a (k + 1)
  asked_le : ∀ a k, asked a k ≤ finished

/-- `signaturesFor`: newest first, down to the cursor or to `limit` of them. -/
def signaturesFor (H : History) (r : BackfillRun) (a : String) (until_ : Option String) :
    List SignatureInfo :=
  pages SignatureInfo.signature PAGE
    (fun k => H.signatures (r.asked a k) a) until_ r.limit 0 none r.limit

/-! ### A run -/

/-- A row of `ingest_cursor` for the source `backfill:<address>`. -/
structure IngestCursor where
  lastSig : String
  lastSlot : Nat
  deriving DecidableEq, Repr

/-- The cursors, and the signatures passed to `ingestTransaction`, in order. -/
structure Backfill where
  cursor : String → Option IngestCursor
  ingested : List String

/-- The signature a resumed run stops at. -/
def Backfill.lastSig (b : Backfill) (a : String) : Option String := (b.cursor a).map (·.lastSig)

/-- `bySig` after one address's list: successful transactions not there yet, oldest first. -/
def addSignatures (bySig newestFirst : List SignatureInfo) : List SignatureInfo :=
  newestFirst.reverse.foldl
    (fun bySig s =>
      if s.err = false ∧ s.signature ∉ bySig.map (·.signature) then bySig ++ [s] else bySig) bySig

/-- `newestFirst` of every address. -/
def scan (H : History) (b : Backfill) (r : BackfillRun) : List (String × List SignatureInfo) :=
  r.addresses.map fun a => (a, signaturesFor H r a (b.lastSig a))

/-- The transactions to ingest, by slot and then in the order they were found. -/
def ordered (lists : List (String × List SignatureInfo)) : List SignatureInfo :=
  (lists.foldl (fun bySig l => addSignatures bySig l.2) []).insertionSort (·.slot ≤ ·.slot)

/-- `main`: ingest what was found, then move every address's cursor to its newest. -/
def backfill (H : History) (b : Backfill) (r : BackfillRun) : Backfill :=
  let lists := scan H b r
  { ingested := b.ingested ++ (ordered lists).map (·.signature)
    cursor := fun a =>
      match (lists.lookup a).bind (·.head?) with
      | some s => some { lastSig := s.signature, lastSlot := s.slot }
      | none => b.cursor a }

/-- Runs follow one another: none starts before the last one finished. -/
structure BackfillStep (H : History) (s : Backfill × Nat) (r : BackfillRun) (s' : Backfill × Nat) :
    Prop where
  starts : ∀ a, s.2 ≤ r.asked a 0
  ends : s'.2 = r.finished
  run : s'.1 = backfill H s.1 r

/-! ### What is claimed of the cursors -/

/-- Every successful transaction of an address up to its cursor, and newer than `first`,
has been ingested. -/
def NoGapAt (H : History) (first : Option String) (b : Backfill) (a : String) (t : Nat) : Prop :=
  ∀ x ∈ upTo SignatureInfo.signature (b.lastSig a) (H.signatures t a),
    x ∈ newerThan SignatureInfo.signature first (H.signatures t a) →
    x.err = false → x.signature ∈ b.ingested

/-- No address has a gap below its cursor, down to the cursor it had first. -/
def NoGap (H : History) (first : String → Option String) (s : Backfill × Nat) : Prop :=
  ∀ a, NoGapAt H (first a) s.1 a s.2

/-- What a run finds newer than an address's cursor. -/
def unread (H : History) (b : Backfill) (r : BackfillRun) (a : String) : List SignatureInfo :=
  newerThan SignatureInfo.signature (b.lastSig a) (H.signatures (r.asked a 0) a)

/-- Nothing is lost beyond the limit: a successful transaction that is not among an
address's `limit` newest was ingested before, or is among those of another address. -/
def WithinLimit (H : History) (b : Backfill) (r : BackfillRun) : Prop :=
  ∀ a ∈ r.addresses, ∀ x ∈ (unread H b r a).drop r.limit, x.err = false →
    x.signature ∈ b.ingested ∨
      ∃ a' ∈ r.addresses, ∃ y ∈ (unread H b r a').take r.limit, y.err = false ∧
        y.signature = x.signature

/-- The cursors recorded so far name signatures of their addresses. -/
def Recorded (H : History) (b : Backfill) (t : Nat) : Prop :=
  ∀ a c, b.lastSig a = some c → c ∈ (H.signatures t a).map (·.signature)

/-! ### What a run reads -/

section Reads

variable {H : History} {b : Backfill} {r : BackfillRun} {a : String} {t t' : Nat}

theorem History.suffix (H : History) (a : String) (h : t ≤ t') :
    H.signatures t a <:+ H.signatures t' a := by
  induction h with
  | refl => exact List.suffix_refl _
  | step _ ih => exact ih.trans (H.grows _ a)

theorem BackfillRun.asked_zero_le (r : BackfillRun) (a : String) (k : Nat) :
    r.asked a 0 ≤ r.asked a k := by
  induction k with
  | zero => exact le_rfl
  | succ k ih => exact ih.trans (r.asked_mono a k)

theorem signaturesFor_eq (until_ : Option String) : signaturesFor H r a until_ =
    (newerThan SignatureInfo.signature until_ (H.signatures (r.asked a 0) a)).take r.limit :=
  pages_eq (fun k => H.suffix a (r.asked_zero_le a k)) (fun k => H.nodup _ a) (by decide) r.limit

theorem mem_foldl_addSignatures {l bySig : List SignatureInfo} {sig : String} :
    sig ∈ (l.foldl (fun bySig s =>
      if s.err = false ∧ s.signature ∉ bySig.map (·.signature) then bySig ++ [s] else bySig)
      bySig).map (·.signature) ↔
    sig ∈ bySig.map (·.signature) ∨ ∃ s ∈ l, s.err = false ∧ s.signature = sig := by
  induction l generalizing bySig with
  | nil => simp
  | cons s l ih =>
      rw [List.foldl_cons, ih]
      by_cases h : s.err = false ∧ s.signature ∉ bySig.map (·.signature)
      · rw [if_pos h]
        simp only [List.map_append, List.mem_append, List.map_cons, List.map_nil,
          List.mem_singleton,
          List.exists_mem_cons_iff, h.1, true_and, eq_comm (a := sig), or_assoc]
      · rw [if_neg h, List.exists_mem_cons_iff, ← or_assoc]
        have hin : s.err = false ∧ s.signature = sig → sig ∈ bySig.map (·.signature) := by
          intro hx
          obtain ⟨herr, rfl⟩ := hx
          by_contra hnot
          exact h ⟨herr, hnot⟩
        tauto

theorem mem_bySig {lists : List (String × List SignatureInfo)} {bySig : List SignatureInfo}
    {sig : String} :
    sig ∈ (lists.foldl (fun bySig l => addSignatures bySig l.2) bySig).map (·.signature) ↔
      sig ∈ bySig.map (·.signature) ∨ ∃ l ∈ lists, ∃ s ∈ l.2, s.err = false ∧
        s.signature = sig := by
  induction lists generalizing bySig with
  | nil => simp
  | cons l lists ih =>
      rw [List.foldl_cons, ih]
      unfold addSignatures
      rw [mem_foldl_addSignatures]
      simp only [List.mem_reverse, List.exists_mem_cons_iff, or_assoc]

/-- A run passes on what is successful among the newest of each address. -/
theorem mem_ingested_backfill {sig : String} : sig ∈ (backfill H b r).ingested ↔
    sig ∈ b.ingested ∨
      ∃ a ∈ r.addresses, ∃ x ∈ (unread H b r a).take r.limit, x.err = false ∧
        x.signature = sig := by
  have hperm : ∀ l : List SignatureInfo,
    sig ∈ (l.insertionSort (·.slot ≤ ·.slot)).map (·.signature) ↔
      sig ∈ l.map (·.signature) := fun l => ((l.perm_insertionSort _).map _).mem_iff
  simp only [backfill, ordered, List.mem_append, hperm, mem_bySig, scan, signaturesFor_eq]
  simp [unread]

theorem lookup_map_pair {β : Type*} (f : String → β) (a : String) (l : List String) :
    (l.map fun a => (a, f a)).lookup a = if a ∈ l then some (f a) else none := by
  induction l with
  | nil => rfl
  | cons a' l ih =>
      rw [List.map_cons, List.lookup_cons]
      by_cases h : a = a'
      · subst h
        simp
      · simp [beq_eq_false_iff_ne.mpr h, ih, h]

theorem lookup_scan : (scan H b r).lookup a =
    if a ∈ r.addresses then some ((unread H b r a).take r.limit) else none := by
  unfold scan
  rw [lookup_map_pair fun a => signaturesFor H r a (b.lastSig a), signaturesFor_eq]
  rfl

theorem lastSig_of_notMem (h : a ∉ r.addresses) : (backfill H b r).lastSig a = b.lastSig a := by
  simp [backfill, Backfill.lastSig, lookup_scan, h]

/-- The new cursor is the newest signature, where there is a new one. -/
theorem lastSig_backfill (h : a ∈ r.addresses) : (backfill H b r).lastSig a =
    match (unread H b r a).head? with
    | some x => some x.signature
    | none => b.lastSig a := by
  have hhead : ((unread H b r a).take r.limit).head? = (unread H b r a).head? := by
    rw [List.head?_take, if_neg r.limit_pos.ne']
  unfold Backfill.lastSig backfill
  simp only [lookup_scan, h, if_true, Option.bind_some, hhead]
  cases (unread H b r a).head? with
  | none => rfl
  | some x => rfl

end Reads

/-! ### Cursors and gaps -/

section Gaps

variable {H : History} {b : Backfill} {r : BackfillRun} {a : String} {t t' : Nat}
  {first : Option String}

/-- A recorded cursor cuts a later history as it cut the earlier one. -/
theorem cut_grow {c : String} (hc : c ∈ (H.signatures t a).map (·.signature)) (htt : t ≤ t') :
    ∃ new, H.signatures t' a = new ++ H.signatures t a ∧
      newerThan SignatureInfo.signature (some c) (H.signatures t' a) =
        new ++ newerThan SignatureInfo.signature (some c) (H.signatures t a) ∧
      upTo SignatureInfo.signature (some c) (H.signatures t' a) =
        upTo SignatureInfo.signature (some c) (H.signatures t a) := by
  obtain ⟨x, hx, rfl⟩ := List.mem_map.mp hc
  obtain ⟨new, hnew⟩ := H.suffix a htt
  have hnodup : ((new ++ H.signatures t a).map (·.signature)).Nodup := by
    rw [hnew]
    exact H.nodup t' a
  exact ⟨new, hnew.symm, by rw [← hnew, newerThan_grow hnodup hx], by rw
    [← hnew, upTo_grow hnodup hx]⟩

/-- Where an address's cursor stands: in the history, and not behind the first one. -/
structure CursorAt (H : History) (first : Option String) (b : Backfill) (a : String) (t : Nat) :
    Prop where
  recorded : ∀ c, b.lastSig a = some c → c ∈ (H.signatures t a).map (·.signature)
  started : ∀ c, first = some c → c ∈ (H.signatures t a).map (·.signature)
  behind : newerThan SignatureInfo.signature (b.lastSig a) (H.signatures t a) ⊆
    newerThan SignatureInfo.signature first (H.signatures t a)

theorem mem_signatures_mono (htt : t ≤ t') {c : String}
    (hc : c ∈ (H.signatures t a).map (·.signature)) :
    c ∈ (H.signatures t' a).map (·.signature) := by
  obtain ⟨x, hx, rfl⟩ := List.mem_map.mp hc
  exact List.mem_map_of_mem ((H.suffix a htt).subset hx)

theorem CursorAt.start (hrec : Recorded H b t) : CursorAt H (b.lastSig a) b a t where
  recorded := hrec a
  started := hrec a
  behind := List.Subset.refl _

/-- With a first cursor there is a cursor ever after. -/
theorem CursorAt.first_none (h : CursorAt H first b a t) (ha : b.lastSig a = none) :
    first = none := by
  cases hf : first with
  | none => rfl
  | some f =>
      obtain ⟨x, hx, rfl⟩ := List.mem_map.mp (h.started f hf)
      have hmem := h.behind (by simpa [ha] using hx)
      rw [hf] at hmem
      exact absurd rfl (ne_of_mem_newerThan hmem)

theorem CursorAt.mono (h : CursorAt H first b a t) (htt : t ≤ t') : CursorAt H first b a t' where
  recorded := fun c hc => mem_signatures_mono htt (h.recorded c hc)
  started := fun c hc => mem_signatures_mono htt (h.started c hc)
  behind := by
    cases hf : first with
    | none =>
        intro x hx
        simpa using mem_of_mem_newerThan hx
    | some f =>
        cases hc : b.lastSig a with
        | none => simp [h.first_none hc] at hf
        | some c =>
            obtain ⟨new, hsig, hnewer, -⟩ := cut_grow (h.recorded c hc) htt
            obtain ⟨new', hsig', hnewer', -⟩ := cut_grow (h.started f hf) htt
            obtain rfl : new = new' := List.append_cancel_right (hsig.symm.trans hsig')
            have hbehind := h.behind
            rw [hc, hf] at hbehind
            rw [hnewer, hnewer']
            exact List.append_subset.mpr ⟨List.subset_append_left _ _,
              List.Subset.trans hbehind (List.subset_append_right _ _)⟩

/-- What is new in a history is not up to any cursor, so a gap is one at any later time. -/
theorem noGapAt_mono (h : CursorAt H first b a t) (htt : t ≤ t') :
    NoGapAt H first b a t' ↔ NoGapAt H first b a t := by
  have hup : upTo SignatureInfo.signature (b.lastSig a) (H.signatures t' a) =
      upTo SignatureInfo.signature (b.lastSig a) (H.signatures t a) := by
    cases hc : b.lastSig a with
    | none => simp
    | some c => exact (cut_grow (h.recorded c hc) htt).choose_spec.2.2
  have hnewer : ∀ x ∈ H.signatures t a,
      (x ∈ newerThan SignatureInfo.signature first (H.signatures t' a) ↔
        x ∈ newerThan SignatureInfo.signature first (H.signatures t a)) := by
    intro x hx
    cases hf : first with
    | none => simpa [hx] using (H.suffix a htt).subset hx
    | some f =>
        obtain ⟨new, hsig, hn, -⟩ := cut_grow (h.started f hf) htt
        have hnodup := H.nodup t' a
        rw [hsig] at hnodup
        have hnew : x ∉ new := fun hin => ne_of_nodup hnodup hx hin rfl
        rw [hn, List.mem_append, or_iff_right hnew]
  unfold NoGapAt
  rw [hup]
  exact forall₂_congr fun x hx => by rw [hnewer x (mem_of_mem_upTo hx)]

/-- The cursor of an address a run has read, where it found something, is the newest. -/
theorem upTo_backfill (ha : a ∈ r.addresses) (hne : unread H b r a ≠ []) :
    upTo SignatureInfo.signature ((backfill H b r).lastSig a) (H.signatures (r.asked a 0) a) =
      H.signatures (r.asked a 0) a := by
  have hsplit := @newerThan_append_upTo _ _ _ SignatureInfo.signature (b.lastSig a)
    (H.signatures (r.asked a 0) a)
  change unread H b r a ++ _ = _ at hsplit
  rw [lastSig_backfill ha]
  cases hu : unread H b r a with
  | nil => exact absurd hu hne
  | cons x l =>
      rw [hu, List.cons_append] at hsplit
      rw [← hsplit]
      exact @upTo_eq_of_append _ _ _ SignatureInfo.signature _ x [] _ (by simp) rfl

theorem lastSig_of_unread_nil (ha : a ∈ r.addresses) (hnil : unread H b r a = []) :
    (backfill H b r).lastSig a = b.lastSig a := by
  simp [lastSig_backfill ha, hnil]

/-- A run leaves a gap below a new cursor exactly where something beyond the limit is not
ingested. -/
theorem noGapAt_backfill (h : CursorAt H first b a (r.asked a 0)) (ha : a ∈ r.addresses)
    (hgap : NoGapAt H first b a (r.asked a 0)) :
    NoGapAt H first (backfill H b r) a (r.asked a 0) ↔
      ∀ x ∈ (unread H b r a).drop r.limit, x.err = false →
        x.signature ∈ (backfill H b r).ingested := by
  have hold : ∀ sig ∈ b.ingested, sig ∈ (backfill H b r).ingested := fun sig hsig =>
    mem_ingested_backfill.mpr (Or.inl hsig)
  by_cases hnil : unread H b r a = []
  · simp only [hnil, List.drop_nil, List.not_mem_nil, false_implies, implies_true, iff_true]
    intro x hx hnew herr
    rw [lastSig_of_unread_nil ha hnil] at hx
    exact hold _ (hgap x hx hnew herr)
  unfold NoGapAt
  rw [upTo_backfill ha hnil]
  constructor
  · intro hno x hx herr
    have hmem : x ∈ unread H b r a := List.mem_of_mem_drop hx
    exact hno x (mem_of_mem_newerThan hmem) (h.behind hmem) herr
  · intro hlim x hx hnew herr
    rcases @mem_newerThan_or_upTo _ _ _ SignatureInfo.signature (b.lastSig a) _ _ hx with hin | hin
    · have hin' : x ∈ (unread H b r a).take r.limit ++ (unread H b r a).drop r.limit := by
        rwa [List.take_append_drop]
      rcases List.mem_append.mp hin' with htake | hdrop
      · exact mem_ingested_backfill.mpr (Or.inr ⟨a, ha, x, htake, herr, rfl⟩)
      · exact hlim x hdrop herr
    · exact hold _ (hgap x hin hnew herr)

theorem CursorAt.backfill (h : CursorAt H first b a (r.asked a 0)) :
    CursorAt H first (backfill H b r) a (r.asked a 0) where
  started := h.started
  recorded := by
    by_cases ha : a ∈ r.addresses
    · rw [lastSig_backfill ha]
      cases hu : (unread H b r a).head? with
      | none => exact h.recorded
      | some x =>
          have hmem : x ∈ H.signatures (r.asked a 0) a :=
            mem_of_mem_newerThan (List.mem_of_mem_head? hu)
          intro c hx
          cases hx
          exact List.mem_map_of_mem hmem
    · rw [lastSig_of_notMem ha]
      exact h.recorded
  behind := by
    by_cases ha : a ∈ r.addresses
    · by_cases hnil : unread H b r a = []
      · rw [lastSig_of_unread_nil ha hnil]
        exact h.behind
      · -- nothing is newer than the newest
        have hsplit := @newerThan_append_upTo _ _ _ SignatureInfo.signature
          ((IceMarkets.Indexer.backfill H b r).lastSig a) (H.signatures (r.asked a 0) a)
        rw [upTo_backfill ha hnil] at hsplit
        rw [List.append_left_eq_self.mp hsplit]
        exact List.nil_subset _
    · rw [lastSig_of_notMem ha]
      exact h.behind

end Gaps

/-! ### Runs of the backfill -/

section Runs

variable {H : History} {first : String → Option String} {s s' : Backfill × Nat} {r : BackfillRun}
  {rs : List BackfillRun}

theorem BackfillStep.cursors (hs : BackfillStep H s r s')
    (h : ∀ a, CursorAt H (first a) s.1 a s.2) (a : String) : CursorAt H (first a) s'.1 a s'.2 := by
  rw [hs.run, hs.ends]
  exact ((h a).mono (hs.starts a)).backfill.mono (r.asked_le a 0)

/-- After a run without gaps before it, there is none exactly when nothing was lost beyond
the limit. -/
theorem BackfillStep.noGap_iff (hs : BackfillStep H s r s')
    (h : ∀ a, CursorAt H (first a) s.1 a s.2) (hgap : NoGap H first s) :
    NoGap H first s' ↔ WithinLimit H s.1 r := by
  have hat : ∀ a, NoGapAt H (first a) s'.1 a s'.2 ↔
      NoGapAt H (first a) (backfill H s.1 r) a (r.asked a 0) := by
    intro a
    rw [hs.run, hs.ends]
    exact noGapAt_mono ((h a).mono (hs.starts a)).backfill (r.asked_le a 0)
  have hbefore : ∀ a, NoGapAt H (first a) s.1 a (r.asked a 0) := fun a =>
    (noGapAt_mono (h a) (hs.starts a)).mpr (hgap a)
  constructor
  · intro hno a ha x hx herr
    have hmem := (noGapAt_backfill ((h a).mono (hs.starts a)) ha (hbefore a)).mp
      ((hat a).mp (hno a)) x hx herr
    exact mem_ingested_backfill.mp hmem
  · intro hlim a
    refine (hat a).mpr ?_
    by_cases ha : a ∈ r.addresses
    · refine (noGapAt_backfill ((h a).mono (hs.starts a)) ha (hbefore a)).mpr fun x hx herr => ?_
      exact mem_ingested_backfill.mpr (hlim a ha x hx herr)
    · intro x hx hnew herr
      rw [lastSig_of_notMem ha] at hx
      exact mem_ingested_backfill.mpr (Or.inl (hbefore a x hx hnew herr))

theorem BackfillStep.deterministic (H : History) (s : Backfill × Nat) (r : BackfillRun)
    (s' s'' : Backfill × Nat) (h : BackfillStep H s r s')
    (h' : BackfillStep H s r s'') : s' = s'' :=
  Prod.ext (h.run.trans h'.run.symm) (h.ends.trans h'.ends.symm)

theorem cursors_run {b : Backfill} {t : Nat} (hrec : Recorded H b t)
    (h : Lts.Run (BackfillStep H) (b, t) rs s) : ∀ a, CursorAt H (b.lastSig a) s.1 a s.2 := by
  have hstep : ∀ s r s', BackfillStep H s r s' → (∀ a, CursorAt H (b.lastSig a) s.1 a s.2) →
      ∀ a, CursorAt H (b.lastSig a) s'.1 a s'.2 := fun _ _ _ hs hI => hs.cursors hI
  exact h.invariant hstep fun a => CursorAt.start hrec

theorem noGap_start (b : Backfill) (t : Nat) : NoGap H b.lastSig (b, t) := fun a _ hx hnew _ =>
  absurd hx (disjoint (H.nodup t a) hnew)

/-- Resumed backfills leave no gap after any of their runs exactly when at each of them
nothing successful is lost beyond the limit. -/
theorem backfill_noGap_iff {b : Backfill} {t : Nat} (hrec : Recorded H b t)
    (h : Lts.Run (BackfillStep H) (b, t) rs s) :
    (∀ pre s', pre <+: rs → Lts.Run (BackfillStep H) (b, t) pre s' → NoGap H b.lastSig s') ↔
      (∀ pre r s', pre ++ [r] <+: rs → Lts.Run (BackfillStep H) (b, t) pre s' →
        WithinLimit H s'.1 r) := by
  constructor
  · intro hno pre r s' hpre hrun
    obtain ⟨rest, rfl⟩ := hpre
    obtain ⟨s₂, hhead, -⟩ := Lts.Run.append_iff.mp h
    obtain ⟨s₁, hrun₁, hstep⟩ := Lts.Run.snoc_iff.mp hhead
    obtain rfl := hrun.deterministic (BackfillStep.deterministic H) hrun₁
    have hgap := hno pre s' ⟨[r] ++ rest, by simp⟩ hrun
    exact (hstep.noGap_iff (cursors_run hrec hrun) hgap).mp (hno (pre ++ [r]) s₂ ⟨rest, rfl⟩ hhead)
  · intro hlim pre
    induction pre using List.reverseRecOn with
    | nil =>
        intro s' _ hrun
        rw [← Lts.Run.nil_iff.mp hrun]
        exact noGap_start b t
    | append_singleton pre r ih =>
        intro s' hpre hrun
        obtain ⟨s₁, hrun₁, hstep⟩ := Lts.Run.snoc_iff.mp hrun
        have hgap := ih s₁ ((List.prefix_append pre [r]).trans hpre) hrun₁
        exact (hstep.noGap_iff (cursors_run hrec hrun₁) hgap).mpr (hlim pre r s₁ hpre hrun₁)

/-- In particular no run loses anything whose limit covers what is new. -/
theorem withinLimit_of_length_le {b : Backfill}
    (h : ∀ a ∈ r.addresses, (unread H b r a).length ≤ r.limit) : WithinLimit H b r := by
  intro a ha x hx
  rw [List.drop_eq_nil_of_le (h a ha)] at hx
  cases hx

end Runs

/-! ### A limit that is too small -/

namespace BackfillSample

def older : SignatureInfo := { signature := "s1", slot := 1, err := false }

def newer : SignatureInfo := { signature := "s2", slot := 2, err := false }

/-- Two transactions of one address. -/
def history : History where
  signatures := fun _ a => if a = "pool" then [newer, older] else []
  grows := fun _ _ => List.suffix_refl _
  nodup := by
    intro _ a
    by_cases h : a = "pool"
    · rw [if_pos h]
      decide
    · rw [if_neg h]
      exact List.nodup_nil

def run (limit : Nat) (h : 0 < limit) : BackfillRun where
  addresses := ["pool"]
  limit
  asked := fun _ _ => 0
  finished := 0
  distinct := List.nodup_singleton _
  limit_pos := h
  asked_mono := fun _ _ => le_rfl
  asked_le := fun _ _ => le_rfl

def empty : Backfill where
  cursor := fun _ => none
  ingested := []

theorem run_step (b : Backfill) (limit : Nat) (h : 0 < limit) :
    BackfillStep history (b, 0) (run limit h) (backfill history b (run limit h), 0) where
  starts := fun _ => le_rfl
  ends := rfl
  run := rfl

theorem recorded_empty : Recorded history empty 0 := by
  intro a c hc
  cases hc

end BackfillSample

open BackfillSample in
theorem backfill_noGap_iff_sample :
    NoGap history empty.lastSig (backfill history empty (run 2 (by decide)), 0) := by
  have hrun := Lts.Run.single (run_step empty 2 (by decide))
  refine (backfill_noGap_iff recorded_empty hrun).mpr ?_ _ _ (List.prefix_refl _) hrun
  intro pre r s' hpre _
  have hr : r = run 2 (by decide) := by
    have hmem := hpre.subset (List.mem_append_right pre List.mem_cons_self)
    exact List.mem_singleton.mp hmem
  subst hr
  refine withinLimit_of_length_le fun a ha => ?_
  obtain rfl := List.mem_singleton.mp ha
  exact (List.takeWhile_sublist _).length_le

open BackfillSample in
/-- A first run cut at one transaction records the newest as its cursor, and a second one
without such a limit never reads the older one. -/
theorem backfill_gap :
    ¬ ∀ (H : History) (b : Backfill) (t : Nat) (rs : List BackfillRun) (s : Backfill × Nat),
      Recorded H b t → Lts.Run (BackfillStep H) (b, t) rs s → NoGap H b.lastSig s := by
  intro hall
  have hrun := Lts.Run.cons (run_step empty 1 (by decide))
    (Lts.Run.single (run_step _ 5000 (by decide)))
  have hgap := hall history empty 0 _ _ recorded_empty hrun "pool" older
    (by decide +kernel) (by decide +kernel) rfl
  have hlost : older.signature ∉
      (backfill history (backfill history empty (run 1 (by decide)))
        (run 5000 (by decide))).ingested := by
    decide +kernel
  exact hlost hgap

end IceMarkets.Indexer
