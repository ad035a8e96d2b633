import IceMarkets.Anchor
import Mathlib.Logic.Function.Basic

/-!
# IceMarkets.Ledger

Token accounts by address.

Instructions that pay accounts named by their caller (a batch of payouts, the
associated account of whoever claims) may name one account twice, so their
transfers run over a ledger: each reads both accounts as the transfer before it
left them. A transfer from an account to itself moves nothing, as in the SPL token
program.
-/

namespace IceMarkets

/-- The token accounts at each address. -/
abbrev Ledger := Pubkey → Option TokenAccount

namespace Ledger

/-- The balance at an address; zero where there is no account. -/
def amount (L : Ledger) (key : Pubkey) : Nat :=
  match L key with
  | some a => a.amount.toNat
  | none => 0

/-- `TransferChecked` between two addresses. -/
def transfer (L : Ledger) (src dst authority : Pubkey) (amount : UInt64) :
    Except TokenError Ledger :=
  match L src, L dst with
  | some s, some d =>
      if src = dst then
        if s.amount < amount then .error .insufficientFunds
        else if s.owner ≠ authority then .error .ownerMismatch
        else .ok L
      else match Token.transfer s d authority amount with
        | .ok (s', d') => .ok (Function.update (Function.update L src (some s')) dst (some d'))
        | .error e => .error e
  | _, _ => .error .uninitializedAccount

/-- `init_if_needed` of a token account: an account that is already there must have
the mint and the owner asked for. -/
def initIfNeeded (L : Ledger) (key mint owner : Pubkey) : Except AnchorError Ledger :=
  match L key with
  | none => .ok (Function.update L key (some { mint, owner, amount := 0 }))
  | some a =>
      if a.mint = mint ∧ a.owner = owner then .ok L else .error .constraintTokenAccount

/-- `init` of a token account: there must be none. -/
def init (L : Ledger) (key mint owner : Pubkey) : Except AnchorError Ledger :=
  match L key with
  | none => .ok (Function.update L key (some { mint, owner, amount := 0 }))
  | some _ => .error .accountAlreadyInUse

/-- The account at `key`, if any, is of `mint` and owned by `owner`. -/
def Holds (L : Ledger) (key mint owner : Pubkey) : Prop :=
  ∃ a, L key = some a ∧ a.mint = mint ∧ a.owner = owner

/-- An account at `key`, if there is one, is owned by `owner`. -/
def OwnedBy (L : Ledger) (key owner : Pubkey) : Prop := ∀ a, L key = some a → a.owner = owner

/-! ### Transfers -/

section Transfer

variable {L L' : Ledger} {src dst authority key mint owner : Pubkey} {amount : UInt64}

theorem amount_of_some {a : TokenAccount} (h : L key = some a) :
    L.amount key = a.amount.toNat := by
  unfold Ledger.amount
  rw [h]

/-- A transfer between two accounts moves exactly its amount. -/
theorem transfer_ok (h : L.transfer src dst authority amount = .ok L') (hne : src ≠ dst) :
    L'.amount src + amount.toNat = L.amount src ∧
      L'.amount dst = L.amount dst + amount.toNat ∧
      ∀ key, key ≠ src → key ≠ dst → L' key = L key := by
  unfold transfer at h
  split at h
  · next s d hs hd =>
      rw [if_neg hne] at h
      split at h
      · next s' d' htr =>
          cases h
          obtain ⟨hsrc, hdst, -, -⟩ := Token.transfer_eq_ok htr
          have hs' : (Function.update (Function.update L src (some s')) dst (some d')) src
              = some s' := by
            rw [Function.update_of_ne hne, Function.update_self]
          have hd' : (Function.update (Function.update L src (some s')) dst (some d')) dst
              = some d' := Function.update_self ..
          refine ⟨?_, ?_, ?_⟩
          · rw [amount_of_some hs', amount_of_some hs]
            exact hsrc
          · rw [amount_of_some hd', amount_of_some hd]
            exact hdst
          · intro key hsrc hdst
            rw [Function.update_of_ne hdst, Function.update_of_ne hsrc]
      · cases h
  · cases h

/-- A transfer keeps every account's mint and owner. -/
theorem Holds.transfer (hL : L.Holds key mint owner)
    (h : L.transfer src dst authority amount = .ok L') : L'.Holds key mint owner := by
  obtain ⟨a, ha, hmint, howner⟩ := hL
  unfold Ledger.transfer at h
  split at h
  · next s d hs hd =>
      by_cases heq : src = dst
      · rw [if_pos heq] at h
        split_ifs at h
        cases h
        exact ⟨a, ha, hmint, howner⟩
      · rw [if_neg heq] at h
        split at h
        · next s' d' htr =>
            cases h
            obtain ⟨-, -, hs', hd'⟩ := Token.transfer_eq_ok htr
            by_cases hdst : key = dst
            · subst hdst
              refine ⟨d', Function.update_self .., ?_, ?_⟩
              · rw [hd', ← hmint, Option.some.inj (hd.symm.trans ha)]
              · rw [hd', ← howner, Option.some.inj (hd.symm.trans ha)]
            · by_cases hsrc : key = src
              · subst hsrc
                refine ⟨s', ?_, ?_, ?_⟩
                · rw [Function.update_of_ne hdst, Function.update_self]
                · rw [hs', ← hmint, Option.some.inj (hs.symm.trans ha)]
                · rw [hs', ← howner, Option.some.inj (hs.symm.trans ha)]
              · refine ⟨a, ?_, hmint, howner⟩
                rw [Function.update_of_ne hdst, Function.update_of_ne hsrc]
                exact ha
        · cases h
  · cases h

/-- A transfer takes its amount from its source and gives it to its destination, which may
be one account. -/
theorem transfer_amount (h : L.transfer src dst authority amount = .ok L') (key : Pubkey) :
    L'.amount key + (if key = src then amount.toNat else 0) =
      L.amount key + if key = dst then amount.toNat else 0 := by
  by_cases hne : src = dst
  · subst hne
    unfold transfer at h
    split at h
    · rw [if_pos rfl] at h
      split_ifs at h
      cases h
      rfl
    · cases h
  · obtain ⟨hsrc, hdst, hother⟩ := transfer_ok h hne
    by_cases hs : key = src
    · subst hs
      rw [if_pos rfl, if_neg hne, hsrc, Nat.add_zero]
    · by_cases hd : key = dst
      · subst hd
        rw [if_pos rfl, if_neg hs, hdst, Nat.add_zero]
      · rw [if_neg hs, if_neg hd]
        unfold Ledger.amount
        rw [hother key hs hd]

/-- The source of a transfer is an account of the authority. -/
theorem transfer_owner (h : L.transfer src dst authority amount = .ok L') :
    ∃ a, L src = some a ∧ a.owner = authority := by
  unfold transfer at h
  split at h
  · next s d hs hd =>
      refine ⟨s, hs, ?_⟩
      by_contra howner
      by_cases heq : src = dst
      · rw [if_pos heq, if_pos howner] at h
        split at h <;> cases h
      · rw [if_neg heq] at h
        unfold Token.transfer at h
        rw [if_pos howner] at h
        split_ifs at h
  · cases h

/-- A transfer creates no account and changes nobody's. -/
theorem transfer_some (h : L.transfer src dst authority amount = .ok L') {a' : TokenAccount}
    (ha : L' key = some a') : ∃ a, L key = some a ∧ a.mint = a'.mint ∧ a.owner = a'.owner := by
  by_cases hkey : L key = none
  · have hnone : L' key = none := by
      unfold transfer at h
      split at h
      · next s d hs hd =>
          by_cases heq : src = dst
          · rw [if_pos heq] at h
            split_ifs at h
            cases h
            exact hkey
          · rw [if_neg heq] at h
            split at h
            · cases h
              have hsrc : key ≠ src := by
                intro hx
                rw [hx, hs] at hkey
                cases hkey
              have hdst : key ≠ dst := by
                intro hx
                rw [hx, hd] at hkey
                cases hkey
              rw [Function.update_of_ne hdst, Function.update_of_ne hsrc, hkey]
            · cases h
      · cases h
    rw [hnone] at ha
    cases ha
  · obtain ⟨a, hL⟩ := Option.ne_none_iff_exists'.mp hkey
    obtain ⟨b, hb, hmint, howner⟩ := Holds.transfer ⟨a, hL, rfl, rfl⟩ h
    cases ha.symm.trans hb
    exact ⟨a, hL, hmint.symm, howner.symm⟩

theorem OwnedBy.transfer (hL : L.OwnedBy key owner)
    (h : L.transfer src dst authority amount = .ok L') : L'.OwnedBy key owner := by
  intro a' ha'
  obtain ⟨a, ha, -, howner⟩ := transfer_some h ha'
  rw [← howner]
  exact hL a ha

/-- A transfer lacks funds only when its source holds less than its amount. -/
theorem lt_of_insufficientFunds
    (h : L.transfer src dst authority amount = .error .insufficientFunds) :
    L.amount src < amount.toNat := by
  unfold transfer at h
  split at h
  · next s d hs hd =>
      rw [amount_of_some hs, ← UInt64.lt_iff_toNat_lt]
      by_cases heq : src = dst
      · rw [if_pos heq] at h
        by_contra hlt
        rw [if_neg hlt] at h
        split at h <;> cases h
      · rw [if_neg heq] at h
        split at h
        · cases h
        · next e htr =>
            cases h
            exact Token.transfer_insufficientFunds htr
  · cases h

/-- A transfer between two accounts of one mint goes through when its source has the
funds and its destination the room. -/
theorem exists_transfer {s d : TokenAccount} (hs : L src = some s) (hd : L dst = some d)
    (hmint : s.mint = d.mint) (howner : s.owner = authority) (hfunds : amount.toNat ≤ L.amount src)
    (hroom : L.amount dst + amount.toNat < 2 ^ 64) :
    ∃ L', L.transfer src dst authority amount = .ok L' := by
  rw [amount_of_some hs] at hfunds
  rw [amount_of_some hd] at hroom
  have hlt : ¬ s.amount < amount := by
    rw [UInt64.lt_iff_toNat_lt]
    omega
  unfold transfer
  rw [hs, hd]
  by_cases heq : src = dst
  · simp [heq, hlt, howner]
  · obtain ⟨credited, hc⟩ := exists_toU64 hroom
    have htr : Token.transfer s d authority amount =
        .ok ({ s with amount := s.amount - amount }, { d with amount := credited }) := by
      unfold Token.transfer
      rw [if_neg hlt, if_neg (by simp [hmint]), if_neg (by simp [howner])]
      unfold checkedAdd
      rw [hc]
    simp [heq, htr]

end Transfer

/-! ### Creation -/

section Init

variable {L L' : Ledger} {key mint owner : Pubkey}

theorem initIfNeeded_ok (h : L.initIfNeeded key mint owner = .ok L') :
    L'.Holds key mint owner ∧ (∀ k, L'.amount k = L.amount k) ∧ ∀ k, k ≠ key → L' k = L k := by
  unfold initIfNeeded at h
  split at h
  · next hnone =>
      cases h
      refine ⟨⟨_, Function.update_self .., rfl, rfl⟩, ?_, ?_⟩
      · intro k
        by_cases hk : k = key
        · subst hk
          unfold Ledger.amount
          simp [hnone]
        · unfold Ledger.amount
          rw [Function.update_of_ne hk]
      · intro k hk
        rw [Function.update_of_ne hk]
  · next a ha =>
      split_ifs at h with hc
      cases h
      exact ⟨⟨a, ha, hc.1, hc.2⟩, fun _ => rfl, fun _ _ => rfl⟩

/-- An address that is free, or holds such an account already, can be initialised. -/
theorem exists_initIfNeeded (h : L key = none ∨ L.Holds key mint owner) :
    ∃ L', L.initIfNeeded key mint owner = .ok L' := by
  unfold initIfNeeded
  rcases h with h | ⟨a, ha, hmint, howner⟩
  · rw [h]
    exact ⟨_, rfl⟩
  · rw [ha]
    simp [hmint, howner]

theorem Holds.initIfNeeded {k m o : Pubkey} (hL : L.Holds k m o)
    (h : L.initIfNeeded key mint owner = .ok L') : L'.Holds k m o := by
  obtain ⟨a, ha, hmint, howner⟩ := hL
  unfold Ledger.initIfNeeded at h
  split at h
  · next hnone =>
      cases h
      refine ⟨a, ?_, hmint, howner⟩
      rw [Function.update_of_ne, ha]
      intro hx
      obtain rfl := hx
      rw [ha] at hnone
      cases hnone
  · split_ifs at h
    cases h
    exact ⟨a, ha, hmint, howner⟩

/-- A token account that `init_if_needed` left is the one it asks for, or another's. -/
theorem OwnedBy.initIfNeeded {k o : Pubkey} (hL : L.OwnedBy k o)
    (h : L.initIfNeeded key mint owner = .ok L') (hkey : k = key → o = owner) :
    L'.OwnedBy k o := by
  obtain ⟨⟨a, ha, -, howner⟩, -, hother⟩ := initIfNeeded_ok h
  intro b hb
  by_cases hk : k = key
  · subst hk
    cases ha.symm.trans hb
    rw [howner, hkey rfl]
  · rw [hother k hk] at hb
    exact hL b hb

theorem init_ok (h : L.init key mint owner = .ok L') :
    L key = none ∧ L.initIfNeeded key mint owner = .ok L' := by
  unfold init at h
  unfold initIfNeeded
  cases hkey : L key with
  | none =>
      rw [hkey] at h
      exact ⟨rfl, h⟩
  | some a =>
      rw [hkey] at h
      cases h

end Init

/-! ### Moves -/

section Moves

/-- An amount at one address. -/
def paid (key : Pubkey) (n : Nat) (k : Pubkey) : Nat := if k = key then n else 0

/-- What became of the accounts: `out` left each address and `into` reached it, and the accounts
in `made`, given with their owners, may be new. The others are whose they were. -/
structure Moved (L : Ledger) (out into : Pubkey → Nat) (made : List (Pubkey × Pubkey))
    (L' : Ledger) : Prop where
  amount : ∀ key, L'.amount key + out key = L.amount key + into key
  holds : ∀ key mint owner, L.Holds key mint owner → L'.Holds key mint owner
  owned : ∀ key owner, (∀ o, (key, o) ∈ made → o = owner) → L.OwnedBy key owner →
    L'.OwnedBy key owner

variable {L L' L'' : Ledger} {out out' into into' : Pubkey → Nat}
  {made made' : List (Pubkey × Pubkey)}

theorem Moved.refl (L : Ledger) : L.Moved (fun _ => 0) (fun _ => 0) [] L :=
  ⟨fun _ => rfl, fun _ _ _ h => h, fun _ _ _ h => h⟩

theorem Moved.trans (h : L.Moved out into made L') (h' : L'.Moved out' into' made' L'') :
    L.Moved (fun key => out key + out' key) (fun key => into key + into' key) (made ++ made')
      L'' where
  amount key := by
    have h₁ := h.amount key
    have h₂ := h'.amount key
    omega
  holds key mint owner hL := h'.holds key mint owner (h.holds key mint owner hL)
  owned key owner hmade hL :=
    h'.owned key owner (fun o ho => hmade o (List.mem_append_right _ ho))
      (h.owned key owner (fun o ho => hmade o (List.mem_append_left _ ho)) hL)

theorem Moved.congr (h : L.Moved out into made L') (hout : ∀ key, out key = out' key)
    (hinto : ∀ key, into key = into' key) : L.Moved out' into' made L' where
  amount key := by
    rw [← hout, ← hinto]
    exact h.amount key
  holds := h.holds
  owned := h.owned

theorem moved_transfer {src dst authority : Pubkey} {n : UInt64}
    (h : L.transfer src dst authority n = .ok L') :
    L.Moved (paid src n.toNat) (paid dst n.toNat) [] L' where
  amount := transfer_amount h
  holds _ _ _ hL := hL.transfer h
  owned _ _ _ hL := hL.transfer h

theorem moved_initIfNeeded {key mint owner : Pubkey} (h : L.initIfNeeded key mint owner = .ok L') :
    L.Moved (fun _ => 0) (fun _ => 0) [(key, owner)] L' where
  amount k := (initIfNeeded_ok h).2.1 k
  holds _ _ _ hL := hL.initIfNeeded h
  owned k o hmade hL := hL.initIfNeeded h fun hk => by
    subst hk
    exact (hmade owner List.mem_cons_self).symm

end Moves

end Ledger

end IceMarkets
