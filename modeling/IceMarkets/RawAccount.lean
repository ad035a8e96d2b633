import IceMarkets.Anchor
import IceMarkets.Lib.Layout

/-!
# IceMarkets.RawAccount

Accounts a program reads as bytes, and `require_upgrade_authority`, which each of the four
programs has word for word with its own error code.
-/

namespace IceMarkets

open Layout

/-- An `UncheckedAccount`: what is read of it. -/
structure RawAccount where
  key : Pubkey
  owner : Pubkey
  data : List UInt8
  deriving DecidableEq, Repr

/-- The 32 bytes from `offset` on. -/
def pubkeyAt (data : List UInt8) (offset : Nat) : Option Pubkey :=
  if h : offset + 32 ≤ data.length then
    some ⟨(data.drop offset).take 32, by rw [List.length_take, List.length_drop]; omega⟩
  else none

theorem pubkeyAt_eq_some {data : List UInt8} {offset : Nat} {key : Pubkey} :
    pubkeyAt data offset = some key ↔ At data offset key.bytes := by
  have hslice : slice data offset 32 = some key.bytes ↔ At data offset key.bytes := by
    rw [slice_eq_some]
    exact and_iff_right key.length_eq
  rw [← hslice]
  unfold pubkeyAt slice
  split_ifs with h
  · rw [Option.some.injEq, Option.some.injEq]
    exact ⟨fun h => congrArg Bytes32.bytes h, fun h => Bytes32.ext_bytes h⟩
  · simp

/-! ### The upgrade authority -/

/-- The upgradeable loader: `bpf_loader_upgradeable::id()` and the ProgramData PDA of a
program. -/
structure Loader where
  id : Pubkey
  programData : Pubkey → Pubkey

/-- The config of a program is initialised by its upgrade authority only. A program of
another loader has no ProgramData: the check is skipped. -/
def requireUpgradeAuthority {ε : Type} (loader : Loader) (e : ε) (program programData : RawAccount)
    (payer : Pubkey) : Result ε Unit :=
  if program.owner ≠ loader.id then .ok ()
  else do
    require (programData.key = loader.programData program.key) e
    let data := programData.data
    require (45 ≤ data.length ∧ data.take 4 = [3, 0, 0, 0] ∧ data[12]? = some 1) e
    require (pubkeyAt data 13 = some payer) e

/-- `UpgradeableLoaderState::ProgramData { slot, upgrade_authority_address }` as bincode
writes it: the variant, the slot, the option's tag and its key. -/
def programDataBytes (slot : List UInt8) (authority : Option Pubkey) (rest : List UInt8) :
    List UInt8 :=
  [3, 0, 0, 0] ++ slot ++
    (match authority with
      | some key => 1 :: key.bytes
      | none => [0]) ++ rest

/-- `key` may initialise a program's config: the program's data, which the loader writes,
names it, or the program has none. -/
def MayInitialize (loader : Loader) (program programData : RawAccount) (key : Pubkey) : Prop :=
  program.owner = loader.id → programData.key = loader.programData program.key ∧
    ∃ slot rest, slot.length = 8 ∧ programData.data = programDataBytes slot (some key) rest

theorem requireUpgradeAuthority_eq_ok {ε : Type} {loader : Loader} {e : ε}
    {program programData : RawAccount} {payer : Pubkey} {u : Unit} :
    requireUpgradeAuthority loader e program programData payer = .ok u ↔
      MayInitialize loader program programData payer := by
  unfold requireUpgradeAuthority MayInitialize
  by_cases howner : program.owner = loader.id
  · rw [if_neg (not_not.mpr howner)]
    simp only [require_bind_eq_ok, require_eq_ok, howner, forall_const]
    apply and_congr_right
    intro _
    rw [take_eq_iff (n := 4) rfl, getElem?_eq_some_iff, pubkeyAt_eq_some]
    constructor
    · intro hx
      obtain ⟨⟨hlen, hvariant, htag⟩, hkey⟩ := hx
      -- between the variant and the tag stands the slot
      obtain ⟨slot, hslot, hat⟩ := exists_gap programData.data 4 8
        (by omega)
      have hall : At programData.data 0 ([3, 0, 0, 0] ++ slot ++ [1] ++ payer.bytes) := by
        simp only [at_append_iff, List.length_append, List.length_cons, List.length_nil, hslot]
        exact ⟨⟨⟨hvariant, hat⟩, htag⟩, hkey⟩
      obtain ⟨rest, hrest⟩ := at_zero_iff.mp hall
      refine ⟨slot, rest, hslot, ?_⟩
      rw [hrest]
      simp [programDataBytes]
    · intro hx
      obtain ⟨slot, rest, hslot, hdata⟩ := hx
      have hall : At programData.data 0 ([3, 0, 0, 0] ++ slot ++ [1] ++ payer.bytes) := by
        rw [at_zero_iff, hdata]
        exact ⟨rest, by simp [programDataBytes]⟩
      have hlen := hall.length_le
      simp only [at_append_iff, List.length_append, List.length_cons, List.length_nil, hslot,
        payer.length_eq] at hall hlen
      obtain ⟨⟨⟨hvariant, -⟩, htag⟩, hkey⟩ := hall
      exact ⟨⟨by omega, hvariant, htag⟩, hkey⟩
  · rw [if_pos howner]
    simp [howner]

/-- Once its authority is gone, nobody initialises the program any more. -/
theorem MayInitialize.not_of_none {loader : Loader} {program programData : RawAccount}
    {slot rest : List UInt8} {key : Pubkey} (h : MayInitialize loader program programData key)
    (howner : program.owner = loader.id) (hslot : slot.length = 8) :
    programData.data ≠ programDataBytes slot none rest := by
  intro hdata
  obtain ⟨-, slot', rest', hslot', hdata'⟩ := h howner
  rw [hdata, programDataBytes, programDataBytes, List.append_assoc, List.append_assoc,
    List.append_assoc, List.append_assoc] at hdata'
  have htail := List.append_cancel_left hdata'
  obtain ⟨-, htail⟩ := List.append_inj htail (hslot.trans hslot'.symm)
  cases htail

end IceMarkets
