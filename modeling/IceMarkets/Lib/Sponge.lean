import Mathlib.Logic.Function.Basic
import Mathlib.Data.List.Infix

/-!
# IceMarkets.Lib.Sponge

The sponge construction: blocks are injected into the outer part of a state, with one
call of a function between them.

The states a call is made on while absorbing are `inputs`. Where injecting a block
leaves the inner part of the state alone and loses nothing of the block, two different
sequences of blocks that reach one state have made two different calls whose results
agree in the inner part, or one call whose result has the initial inner part
(`inner_collision`). Padding is byte-wise, with a single one bit before and after the
zeros; the padded bytes determine the message (`pad_injective`).
-/

namespace Sponge

/-! ### Absorbing -/

section Absorb

variable {σ β κ : Type*} (f : σ → σ) (inject : β → σ → σ)

/-- The state after the blocks. -/
def absorb (s : σ) (blocks : List β) : σ := blocks.foldl (fun s b => f (inject b s)) s

/-- What `f` is called on, block by block. -/
def inputs : σ → List β → List σ
  | _, [] => []
  | s, b :: blocks => inject b s :: inputs (f (inject b s)) blocks

theorem absorb_append (s : σ) (xs ys : List β) :
    absorb f inject s (xs ++ ys) = absorb f inject (absorb f inject s xs) ys :=
  List.foldl_append

theorem inputs_append (s : σ) (xs ys : List β) :
    inputs f inject s (xs ++ ys) =
      inputs f inject s xs ++ inputs f inject (absorb f inject s xs) ys := by
  induction xs generalizing s with
  | nil => rfl
  | cons b xs ih => exact congrArg (inject b s :: ·) (ih _)

/-- The last block's call. -/
theorem absorb_concat (s : σ) (xs : List β) (b : β) :
    absorb f inject s (xs ++ [b]) = f (inject b (absorb f inject s xs)) :=
  absorb_append f inject s xs [b]

theorem inputs_concat (s : σ) (xs : List β) (b : β) :
    inputs f inject s (xs ++ [b]) =
      inputs f inject s xs ++ [inject b (absorb f inject s xs)] :=
  inputs_append f inject s xs [b]

/-- A state reached by some block is the result of the last call. -/
theorem absorb_eq_last {s : σ} {xs : List β} (hne : xs ≠ []) :
    ∃ u ∈ inputs f inject s xs, absorb f inject s xs = f u := by
  obtain ⟨xs, b, rfl⟩ := (List.eq_nil_or_concat' xs).resolve_left hne
  rw [inputs_concat, absorb_concat]
  exact ⟨_, List.mem_append_right _ List.mem_cons_self, rfl⟩

variable (inner : σ → κ)

/-- Two calls, or a call and the initial state, with one inner part. -/
def InnerCollision (s : σ) (calls calls' : List σ) : Prop :=
  (∃ u ∈ calls, ∃ v ∈ calls', u ≠ v ∧ inner (f u) = inner (f v)) ∨
    ∃ u, (u ∈ calls ∨ u ∈ calls') ∧ inner (f u) = inner s

variable {f inject inner}

theorem InnerCollision.mono {s : σ} {calls calls' more more' : List σ}
    (h : InnerCollision f inner s calls calls') (hc : calls ⊆ more) (hc' : calls' ⊆ more') :
    InnerCollision f inner s more more' := by
  rcases h with ⟨u, hu, v, hv, h⟩ | ⟨u, hu, h⟩
  · exact Or.inl ⟨u, hc hu, v, hc' hv, h⟩
  · exact Or.inr ⟨u, hu.imp (fun h => hc h) (fun h => hc' h), h⟩

/-- Different states with one inner part, each reached by blocks or initial. -/
theorem collision_of_ne {s : σ} {xs ys : List β}
    (hne : absorb f inject s xs ≠ absorb f inject s ys)
    (h : inner (absorb f inject s xs) = inner (absorb f inject s ys)) :
    InnerCollision f inner s (inputs f inject s xs) (inputs f inject s ys) := by
  by_cases hxs : xs = []
  · obtain rfl := hxs
    have hys : ys ≠ [] := fun hys => hne (by rw [hys])
    obtain ⟨v, hv, hstate⟩ := absorb_eq_last f inject (s := s) hys
    exact Or.inr ⟨v, Or.inr hv, (congrArg inner hstate.symm).trans h.symm⟩
  · obtain ⟨u, hu, hx⟩ := absorb_eq_last f inject (s := s) hxs
    by_cases hys : ys = []
    · obtain rfl := hys
      exact Or.inr ⟨u, Or.inl hu, (congrArg inner hx.symm).trans h⟩
    · obtain ⟨v, hv, hy⟩ := absorb_eq_last f inject (s := s) hys
      rw [hx, hy] at h hne
      exact Or.inl ⟨u, hu, v, hv, fun huv => hne (congrArg f huv), h⟩

/-- Different blocks that lead to one state collide in the inner part on the way. -/
theorem inner_collision (hinner : ∀ b s, inner (inject b s) = inner s)
    (hinject : ∀ b b' s, inject b s = inject b' s → b = b') {s : σ} {xs ys : List β}
    (hne : xs ≠ ys) (h : absorb f inject s xs = absorb f inject s ys) :
    InnerCollision f inner s (inputs f inject s xs) (inputs f inject s ys) := by
  induction xs using List.reverseRecOn generalizing ys with
  | nil =>
      obtain ⟨u, hu, hstate⟩ := absorb_eq_last f inject (s := s) hne.symm
      exact Or.inr ⟨u, Or.inr hu, congrArg inner (hstate.symm.trans h.symm)⟩
  | append_singleton xs b ih =>
      rcases List.eq_nil_or_concat' ys with rfl | ⟨ys, b', rfl⟩
      · obtain ⟨u, hu, hstate⟩ := absorb_eq_last f inject (s := s) hne
        exact Or.inr ⟨u, Or.inl hu, congrArg inner (hstate.symm.trans h)⟩
      · rw [absorb_concat, absorb_concat] at h
        rw [inputs_concat, inputs_concat]
        by_cases hcall : inject b (absorb f inject s xs) = inject b' (absorb f inject s ys)
        · -- the last calls are the same one, so the states before have one inner part
          have hin : inner (absorb f inject s xs) = inner (absorb f inject s ys) :=
            calc inner (absorb f inject s xs)
                _ = inner (inject b (absorb f inject s xs)) := (hinner b _).symm
                _ = inner (inject b' (absorb f inject s ys)) := congrArg inner hcall
                _ = inner (absorb f inject s ys) := hinner b' _
          refine InnerCollision.mono ?_ (List.subset_append_left _ _) (List.subset_append_left _ _)
          by_cases hstate : absorb f inject s xs = absorb f inject s ys
          · rw [hstate] at hcall
            refine ih (fun hxy => hne ?_) hstate
            rw [hxy, hinject b b' _ hcall]
          · exact collision_of_ne hstate hin
        · exact Or.inl ⟨_, List.mem_append_right _ List.mem_cons_self, _,
            List.mem_append_right _ List.mem_cons_self, hcall, congrArg inner h⟩

end Absorb

/-! ### Padding -/

section Pad

/-- The bytes after a message of length `n`: a one bit, zeros, a one bit, up to a multiple of
`rate` bytes. Bits count from the lowest of each byte. -/
def padding (rate n : Nat) : List UInt8 :=
  if rate - n % rate = 1 then [0x81]
  else 0x01 :: (List.replicate (rate - n % rate - 2) 0 ++ [0x80])

def pad (rate : Nat) (message : List UInt8) : List UInt8 :=
  message ++ padding rate message.length

/-- The message in front of its padding, the bytes being read from the last. -/
def unpadReverse : List UInt8 → List UInt8
  | [] => []
  | b :: rest => if b = 0x81 then rest else (rest.dropWhile fun b => b = 0).tail

def unpad (padded : List UInt8) : List UInt8 := (unpadReverse padded.reverse).reverse

theorem dropWhile_replicate_zero (n : Nat) (bytes : List UInt8) :
    (List.replicate n (0 : UInt8) ++ 0x01 :: bytes).dropWhile (fun b => b = 0) =
      0x01 :: bytes := by
  induction n with
  | zero => rfl
  | succ n ih => simp [List.replicate_succ, ih]

/-- Padding can be taken off again. -/
theorem unpad_pad (rate : Nat) (message : List UInt8) : unpad (pad rate message) = message := by
  unfold unpad pad padding
  split
  · simp [unpadReverse]
  · simp only [List.reverse_append, List.reverse_cons, List.append_assoc, List.reverse_replicate,
      List.reverse_nil, List.nil_append, List.cons_append]
    rw [unpadReverse, if_neg (by decide), dropWhile_replicate_zero, List.tail_cons,
      List.reverse_reverse]

/-- The padded bytes determine the message. -/
theorem pad_injective (rate : Nat) : Function.Injective (pad rate) :=
  Function.LeftInverse.injective (unpad_pad rate)

theorem length_padding {rate : Nat} (hrate : 0 < rate) (n : Nat) :
    (padding rate n).length = rate - n % rate := by
  have hn := Nat.mod_lt n hrate
  unfold padding
  split_ifs with h
  · rw [h]
    rfl
  · simp only [List.length_cons, List.length_append, List.length_replicate, List.length_nil]
    omega

/-- Padding fills up one block, which may be a block of its own. -/
theorem length_pad {rate : Nat} (hrate : 0 < rate) (message : List UInt8) :
    (pad rate message).length = (message.length / rate + 1) * rate := by
  have hdiv := Nat.div_add_mod message.length rate
  have hlt := Nat.mod_lt message.length hrate
  rw [pad, List.length_append, length_padding hrate, Nat.add_mul, Nat.one_mul, Nat.mul_comm]
  omega

end Pad

/-! ### Blocks -/

section Blocks

variable {rate : Nat}

/-- Block `b` of the bytes. -/
def chunk (rate : Nat) (bytes : List UInt8) (b : Nat) : Vector UInt8 rate :=
  Vector.ofFn fun i => bytes.getD (b * rate + i) 0

/-- The bytes as whole blocks. -/
def chunks (rate : Nat) (bytes : List UInt8) : List (Vector UInt8 rate) :=
  (List.range (bytes.length / rate)).map (chunk rate bytes)

/-- Whole blocks determine the bytes. -/
theorem eq_of_chunks_eq {xs ys : List UInt8} (hxs : rate ∣ xs.length) (hys : rate ∣ ys.length)
    (hrate : 0 < rate) (h : chunks rate xs = chunks rate ys) : xs = ys := by
  have hcount : xs.length / rate = ys.length / rate := by
    simpa [chunks] using congrArg List.length h
  have hlength : xs.length = ys.length := by
    rw [← Nat.div_mul_cancel hxs, ← Nat.div_mul_cancel hys, hcount]
  refine List.ext_getElem hlength fun k hk hk' => ?_
  have hb : k / rate < xs.length / rate := Nat.div_lt_div_of_lt_of_dvd hxs hk
  rw [chunks, chunks, ← hcount, List.map_inj_left] at h
  have hchunk := h (k / rate) (List.mem_range.mpr hb)
  have hmod : k % rate < rate := Nat.mod_lt _ hrate
  have hbyte := congrArg (fun v : Vector UInt8 rate => v[k % rate]) hchunk
  have hk₀ : k / rate * rate + k % rate = k := Nat.div_add_mod' k rate
  simp only [chunk, Vector.getElem_ofFn, hk₀] at hbyte
  simpa only [List.getD_eq_getElem?_getD, List.getElem?_eq_getElem hk,
    List.getElem?_eq_getElem hk', Option.getD_some] using hbyte

end Blocks

end Sponge
