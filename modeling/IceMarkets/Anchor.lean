import IceMarkets.Machine

/-!
# IceMarkets.Anchor

The slice of Anchor and of the SPL token program that the on-chain programs
rest on: 32-byte keys, instruction results with `require!`, and token transfers,
mints and burns that move exact amounts or fail.

Handlers are written in the `Result` monad. A failed instruction is an `error`
and leaves no state behind, so atomicity of a Solana transaction is the monad's.
The inversion lemmas (`bind_eq_ok`, `require_eq_ok`, `okOr_eq_ok`) turn a
successful run of a handler into the conjunction of its checks.
-/

namespace IceMarkets

/-! ### Keys -/

/-- A 32-byte value: a public key or a Keccak digest. -/
structure Bytes32 where
  bytes : List UInt8
  length_eq : bytes.length = 32
  deriving DecidableEq, Repr

namespace Bytes32

theorem ext_bytes {a b : Bytes32} (h : a.bytes = b.bytes) : a = b := by
  cases a; cases b; cases h; rfl

/-- The value whose bytes are all `b`. -/
def fill (b : UInt8) : Bytes32 := ⟨List.replicate 32 b, List.length_replicate⟩

/-- Bytewise lexicographic order, as Rust's `<=` on `[u8; 32]` and Node's
`Buffer.compare` on 32-byte buffers. -/
def le (a b : Bytes32) : Bool := decide (a.bytes ≤ b.bytes)

theorem le_total (a b : Bytes32) : le a b = true ∨ le b a = true := by
  simp only [le, decide_eq_true_eq]
  exact List.le_total a.bytes b.bytes

theorem le_antisymm {a b : Bytes32} (h : le a b = true) (h' : le b a = true) : a = b := by
  simp only [le, decide_eq_true_eq] at h h'
  exact ext_bytes (List.le_antisymm h h')

end Bytes32

/-- A Solana public key. -/
abbrev Pubkey := Bytes32

/-- `Pubkey::default()`: 32 zero bytes. -/
def Pubkey.default : Pubkey := Bytes32.fill 0

/-! ### Results -/

/-- Failures of the SPL token program. -/
inductive TokenError
  | insufficientFunds
  | mintMismatch
  | ownerMismatch
  | overflow
  | uninitializedAccount
  deriving DecidableEq, Repr

/-- Failures Anchor raises itself, before or around a handler. -/
inductive AnchorError
  | accountAlreadyInUse
  | accountNotInitialized
  | constraintHasOne
  | constraintSeeds
  | constraintTokenAccount
  deriving DecidableEq, Repr

/-- Why an instruction failed: its own `#[error_code]`, Anchor, or a token CPI. -/
inductive ProgramError (ε : Type)
  | custom (e : ε)
  | anchor (e : AnchorError)
  | token (e : TokenError)
  deriving DecidableEq, Repr

/-- Anchor's `Result` for a program whose error code is `ε`. -/
abbrev Result (ε : Type) (α : Type) := Except (ProgramError ε) α

-- A check of what an option or a list holds is decided on its entries; over a fixed-width
-- type Mathlib would go through all values of the type.
instance (priority := 1100) decidableForallOption {α : Type} {p : α → Prop} [DecidablePred p]
    {o : Option α} : Decidable (∀ a ∈ o, p a) :=
  Option.decidableForallMem o

instance (priority := 1100) decidableForallList {α : Type} {p : α → Prop} [DecidablePred p]
    {l : List α} : Decidable (∀ a ∈ l, p a) :=
  List.decidableBAll p l

instance decidableEqExcept {ε α : Type} [DecidableEq ε] [DecidableEq α] : DecidableEq (Except ε α)
  | .ok a, .ok b => decidable_of_iff (a = b) ⟨congrArg _, fun h => by cases h; rfl⟩
  | .error a, .error b => decidable_of_iff (a = b) ⟨congrArg _, fun h => by cases h; rfl⟩
  | .ok _, .error _ => isFalse nofun
  | .error _, .ok _ => isFalse nofun

section Results

variable {ε α β : Type}

/-- `require!(c, e)`. -/
def require (c : Prop) [Decidable c] (e : ε) : Result ε Unit :=
  if c then .ok () else .error (.custom e)

/-- `x.ok_or_else(|| error!(e))`. -/
def okOr (x : Option α) (e : ε) : Result ε α :=
  match x with
  | some a => .ok a
  | none => .error (.custom e)

/-- A token CPI inside a handler: `token::transfer(..)?`. -/
def liftToken (x : Except TokenError α) : Result ε α :=
  match x with
  | .ok a => .ok a
  | .error e => .error (.token e)

/-- An account constraint or an `init`, which Anchor checks before the handler. -/
def liftAnchor (x : Except AnchorError α) : Result ε α :=
  match x with
  | .ok a => .ok a
  | .error e => .error (.anchor e)

theorem ok_bind {a : α} {f : α → Except ε β} : ((.ok a : Except ε α) >>= f) = f a := rfl

theorem bind_eq_ok {x : Except ε α} {f : α → Except ε β} {r : β} :
    (x >>= f) = .ok r ↔ ∃ a, x = .ok a ∧ f a = .ok r := by
  cases x with
  | error e => exact ⟨nofun, fun ⟨_, h, _⟩ => nomatch h⟩
  | ok a => exact ⟨fun h => ⟨a, rfl, h⟩, fun ⟨_, h, h'⟩ => by cases h; exact h'⟩

/-- A sequence fails where its first failing step does. -/
theorem bind_eq_error {x : Result ε α} {f : α → Result ε β} {e : ProgramError ε} :
    (x >>= f) = .error e ↔ x = .error e ∨ ∃ a, x = .ok a ∧ f a = .error e := by
  cases x with
  | error e' =>
      constructor
      · exact fun h => Or.inl (congrArg _ (Except.error.inj h))
      · intro hx
        rcases hx with h | ⟨_, h, _⟩
        · exact congrArg _ (Except.error.inj h)
        · cases h
  | ok a =>
      constructor
      · exact fun h => Or.inr ⟨a, rfl, h⟩
      · intro hx
        rcases hx with h | ⟨_, h, h'⟩
        · cases h
        · cases h; exact h'

theorem require_eq_ok {c : Prop} [Decidable c] {e : ε} {u : Unit} :
    require c e = .ok u ↔ c := by
  unfold require
  split
  · next h => exact ⟨fun _ => h, fun _ => rfl⟩
  · next h => exact ⟨nofun, fun h' => absurd h' h⟩

theorem require_of {c : Prop} [Decidable c] {e : ε} (h : c) : require c e = .ok () :=
  require_eq_ok.mpr h

theorem require_eq_error {c : Prop} [Decidable c] {e : ε} {e' : ProgramError ε} :
    require c e = .error e' ↔ ¬ c ∧ .custom e = e' := by
  unfold require
  split
  · next h => exact ⟨nofun, fun h' => absurd h h'.1⟩
  · next h => exact ⟨fun h' => ⟨h, Except.error.inj h'⟩, fun h' => congrArg _ h'.2⟩

theorem okOr_eq_ok {x : Option α} {e : ε} {a : α} : okOr x e = .ok a ↔ x = some a := by
  cases x with
  | none => exact ⟨nofun, nofun⟩
  | some b => exact ⟨fun h => congrArg _ (Except.ok.inj h), fun h => congrArg _ (Option.some.inj h)⟩

theorem okOr_eq_error {x : Option α} {e : ε} {e' : ProgramError ε} :
    okOr x e = .error e' ↔ x = none ∧ .custom e = e' := by
  cases x with
  | none => exact ⟨fun h => ⟨rfl, Except.error.inj h⟩, fun h => congrArg _ h.2⟩
  | some b => exact ⟨nofun, nofun⟩

theorem liftToken_eq_ok {x : Except TokenError α} {a : α} :
    (liftToken x : Result ε α) = .ok a ↔ x = .ok a := by
  cases x with
  | error e => exact ⟨nofun, nofun⟩
  | ok b => exact ⟨fun h => congrArg _ (Except.ok.inj h), fun h => congrArg _ (Except.ok.inj h)⟩

theorem liftToken_eq_error {x : Except TokenError α} {e : ProgramError ε} :
    (liftToken x : Result ε α) = .error e ↔ ∃ t, x = .error t ∧ .token t = e := by
  cases x with
  | error t =>
      constructor
      · exact fun h => ⟨t, rfl, Except.error.inj h⟩
      · intro hx
        obtain ⟨_, h, rfl⟩ := hx
        cases h
        rfl
  | ok b => exact ⟨nofun, fun ⟨_, h, _⟩ => nomatch h⟩

theorem liftAnchor_eq_ok {x : Except AnchorError α} {a : α} :
    (liftAnchor x : Result ε α) = .ok a ↔ x = .ok a := by
  cases x with
  | error e => exact ⟨nofun, nofun⟩
  | ok b => exact ⟨fun h => congrArg _ (Except.ok.inj h), fun h => congrArg _ (Except.ok.inj h)⟩

/-- Neither a check nor an account constraint fails as a token CPI does. -/
theorem require_ne_token {c : Prop} [Decidable c] {e : ε} {t : TokenError} :
    require c e ≠ .error (.token t) := by
  intro h
  cases (require_eq_error.mp h).2

theorem okOr_ne_token {x : Option α} {e : ε} {t : TokenError} :
    okOr x e ≠ .error (.token t) := by
  intro h
  cases (okOr_eq_error.mp h).2

theorem liftAnchor_ne_token {x : Except AnchorError α} {t : TokenError} :
    (liftAnchor x : Result ε α) ≠ .error (.token t) := by
  cases x with
  | error e => nofun
  | ok a => nofun

theorem liftAnchor_ne_custom {x : Except AnchorError α} {e : ε} :
    (liftAnchor x : Result ε α) ≠ .error (.custom e) := by
  cases x with
  | error e => nofun
  | ok a => nofun

/-- A step that cannot fail with `e` passes a failure with `e` on to the rest. -/
theorem bind_eq_error_of_ne {x : Result ε α} {f : α → Result ε β} {e : ProgramError ε}
    (hx : x ≠ .error e) : (x >>= f) = .error e ↔ ∃ a, x = .ok a ∧ f a = .error e := by
  rw [bind_eq_error]
  exact or_iff_right hx

/-- A passed check, then the rest of the handler. -/
theorem require_bind_eq_ok {c : Prop} [Decidable c] {e : ε} {f : Unit → Result ε β} {r : β} :
    (require c e >>= f) = .ok r ↔ c ∧ f () = .ok r := by
  rw [bind_eq_ok]
  exact ⟨fun ⟨_, h, h'⟩ => ⟨require_eq_ok.mp h, h'⟩, fun ⟨h, h'⟩ => ⟨(), require_eq_ok.mpr h, h'⟩⟩

/-- A checked value that is there, then the rest of the handler. -/
theorem okOr_bind_eq_ok {x : Option α} {e : ε} {f : α → Result ε β} {r : β} :
    (okOr x e >>= f) = .ok r ↔ ∃ a, x = some a ∧ f a = .ok r := by
  simp only [bind_eq_ok, okOr_eq_ok]

/-- A failure with another code than a check's comes from the rest of the handler. -/
theorem require_bind_eq_error {c : Prop} [Decidable c] {e : ε} {f : Unit → Result ε β}
    {e' : ProgramError ε} (hne : .custom e ≠ e') :
    (require c e >>= f) = .error e' ↔ c ∧ f () = .error e' := by
  rw [bind_eq_error]
  constructor
  · intro h
    rcases h with h | ⟨u, h, h'⟩
    · exact absurd (require_eq_error.mp h).2 hne
    · exact ⟨require_eq_ok.mp h, h'⟩
  · intro hx
    obtain ⟨h, h'⟩ := hx
    exact Or.inr ⟨(), require_eq_ok.mpr h, h'⟩

theorem okOr_bind_eq_error {x : Option α} {e : ε} {f : α → Result ε β} {e' : ProgramError ε}
    (hne : .custom e ≠ e') :
    (okOr x e >>= f) = .error e' ↔ ∃ a, x = some a ∧ f a = .error e' := by
  rw [bind_eq_error]
  constructor
  · intro h
    rcases h with h | ⟨a, h, h'⟩
    · exact absurd (okOr_eq_error.mp h).2 hne
    · exact ⟨a, okOr_eq_ok.mp h, h'⟩
  · intro hx
    obtain ⟨a, h, h'⟩ := hx
    exact Or.inr ⟨a, okOr_eq_ok.mpr h, h'⟩

/-- A token CPI never fails with the program's own code. -/
theorem liftToken_bind_eq_error {x : Except TokenError α} {f : α → Result ε β} {e : ε} :
    (liftToken x >>= f) = .error (.custom e) ↔ ∃ a, x = .ok a ∧ f a = .error (.custom e) := by
  rw [bind_eq_error]
  constructor
  · intro h
    rcases h with h | ⟨a, h, h'⟩
    · obtain ⟨t, -, h⟩ := liftToken_eq_error.mp h
      cases h
    · exact ⟨a, liftToken_eq_ok.mp h, h'⟩
  · intro hx
    obtain ⟨a, h, h'⟩ := hx
    exact Or.inr ⟨a, liftToken_eq_ok.mpr h, h'⟩

/-- `x` can fail with an own code only if the code is in `es`. -/
def RaisesOnly (es : List ε) (x : Result ε α) : Prop := ∀ e, x = .error (.custom e) → e ∈ es

namespace RaisesOnly

variable {es : List ε} {e : ε}

theorem ok (a : α) : RaisesOnly es (.ok a : Result ε α) := nofun

theorem error (h : e ∈ es) : RaisesOnly es (.error (.custom e) : Result ε α) := by
  intro _ hx
  cases hx
  exact h

theorem require {c : Prop} [Decidable c] (h : e ∈ es) : RaisesOnly es (require c e) := by
  intro e' h'
  obtain ⟨-, heq⟩ := require_eq_error.mp h'
  cases heq
  exact h

theorem okOr {x : Option α} (h : e ∈ es) : RaisesOnly es (okOr x e) := by
  intro e' h'
  obtain ⟨-, heq⟩ := okOr_eq_error.mp h'
  cases heq
  exact h

theorem mono {es' : List ε} {x : Result ε α} (hx : RaisesOnly es x) (h : ∀ e ∈ es, e ∈ es') :
    RaisesOnly es' x := fun e he => h e (hx e he)

theorem bind {x : Result ε α} {f : α → Result ε β} (hx : RaisesOnly es x)
    (hf : ∀ a, RaisesOnly es (f a)) : RaisesOnly es (x >>= f) := by
  intro e h
  rcases bind_eq_error.mp h with h | ⟨a, -, h⟩
  · exact hx e h
  · exact hf a e h

/-- A failure with another code comes from the rest of the handler. -/
theorem bind_eq_error {x : Result ε α} {f : α → Result ε β} (hx : RaisesOnly es x) (h : e ∉ es) :
    (x >>= f) = .error (.custom e) ↔ ∃ a, x = .ok a ∧ f a = .error (.custom e) := by
  rw [IceMarkets.bind_eq_error]
  exact or_iff_right fun h' => h (hx e h')

end RaisesOnly

/-- The instruction was accepted. -/
def Accepted (x : Result ε α) : Prop := ∃ a, x = .ok a

/-- What an accepted instruction returned. -/
def acceptedValue : (x : Result ε α) → x.isOk = true → α
  | .ok a, _ => a

theorem eq_ok_acceptedValue {x : Result ε α} (h : x.isOk = true) : x = .ok (acceptedValue x h) := by
  cases x with
  | error e => cases h
  | ok a => rfl

end Results

/-! ### SPL tokens -/

/-- A token account. -/
structure TokenAccount where
  mint : Pubkey
  owner : Pubkey
  amount : UInt64
  deriving DecidableEq, Repr

/-- A mint: only its outstanding supply matters here. -/
structure Mint where
  supply : UInt64
  deriving DecidableEq, Repr

namespace Token

/-- `Transfer`: debits `src`, credits `dst`, both exactly `amount`. The two
accounts are distinct. -/
def transfer (src dst : TokenAccount) (authority : Pubkey) (amount : UInt64) :
    Except TokenError (TokenAccount × TokenAccount) :=
  if src.amount < amount then .error .insufficientFunds
  else if src.mint ≠ dst.mint then .error .mintMismatch
  else if src.owner ≠ authority then .error .ownerMismatch
  else match checkedAdd dst.amount amount with
    | none => .error .overflow
    | some credited =>
        .ok ({ src with amount := src.amount - amount }, { dst with amount := credited })

/-- `MintTo`: raises the supply and the destination by `amount`. -/
def mintTo (mint : Mint) (dst : TokenAccount) (amount : UInt64) :
    Except TokenError (Mint × TokenAccount) :=
  match checkedAdd dst.amount amount, checkedAdd mint.supply amount with
  | some credited, some supply =>
    .ok ({ mint with supply := supply }, { dst with amount := credited })
  | _, _ => .error .overflow

/-- `Burn`: lowers the supply and the holder's account by `amount`. -/
def burn (mint : Mint) (src : TokenAccount) (authority : Pubkey) (amount : UInt64) :
    Except TokenError (Mint × TokenAccount) :=
  if src.amount < amount then .error .insufficientFunds
  else if src.owner ≠ authority then .error .ownerMismatch
  else match checkedSub mint.supply amount with
    | none => .error .overflow
    | some supply =>
        .ok ({ mint with supply := supply }, { src with amount := src.amount - amount })

/-- A transfer moves exactly `amount`. -/
theorem transfer_eq_ok {src dst src' dst' : TokenAccount} {authority : Pubkey} {amount : UInt64}
    (h : transfer src dst authority amount = .ok (src', dst')) :
    src'.amount.toNat + amount.toNat = src.amount.toNat ∧
      dst'.amount.toNat = dst.amount.toNat + amount.toNat ∧
      src' = { src with amount := src'.amount } ∧ dst' = { dst with amount := dst'.amount } := by
  unfold transfer at h
  split at h
  · cases h
  · next hlt =>
      split at h
      · cases h
      · split at h
        · cases h
        · split at h
          · cases h
          · next credited hadd =>
              cases h
              rw [UInt64.lt_iff_toNat_lt] at hlt
              have hsub := toNat_sub_of_toNat_le (a := src.amount) (b := amount) (by omega)
              exact ⟨by rw [hsub]; omega, checkedAdd_eq_some.mp hadd, rfl, rfl⟩

/-- A transfer lacks funds only when its source holds less than its amount. -/
theorem transfer_insufficientFunds {src dst : TokenAccount} {authority : Pubkey} {amount : UInt64}
    (h : transfer src dst authority amount = .error .insufficientFunds) : src.amount < amount := by
  by_contra hlt
  unfold transfer at h
  rw [if_neg hlt] at h
  split at h
  · cases h
  · split at h
    · cases h
    · split at h <;> cases h

/-- A mint raises the supply by exactly `amount`. -/
theorem mintTo_eq_ok {mint mint' : Mint} {dst dst' : TokenAccount} {amount : UInt64}
    (h : mintTo mint dst amount = .ok (mint', dst')) :
    mint'.supply.toNat = mint.supply.toNat + amount.toNat := by
  unfold mintTo at h
  split at h
  · next hdst hsup =>
      cases h
      exact checkedAdd_eq_some.mp hsup
  · cases h

/-- A burn lowers the supply by exactly `amount`. -/
theorem burn_eq_ok {mint mint' : Mint} {src src' : TokenAccount} {authority : Pubkey}
    {amount : UInt64} (h : burn mint src authority amount = .ok (mint', src')) :
    mint'.supply.toNat + amount.toNat = mint.supply.toNat := by
  unfold burn at h
  split at h
  · cases h
  · split at h
    · cases h
    · split at h
      · cases h
      · next hsup =>
          cases h
          exact checkedSub_eq_some.mp hsup

end Token

end IceMarkets
