import Mathlib.Data.List.Forall2
import Mathlib.Data.List.Perm.Basic

/-!
# IceMarkets.Lib.InFlight

Messages that were sent, each of which takes effect once, at any later time, or never.

The list keeps the order of sending; a message's status is settled in place
(`settle`). `Later` relates a list to what becomes of it while nothing is sent: the messages
stay, and a status that is settled stays. What may still land (`liveOf`) only shrinks
(`Later.live_sublist`); what landed messages amount to (`landedOf`) grows by the message that
lands (`landedOf_land`), and not at all where none can (`Later.landed_eq`).
-/

namespace InFlight

/-- Whether a message may still take effect, has, or never will. -/
inductive Status
  | pending
  | landed
  | expired
  deriving DecidableEq, Repr

structure Sent (M : Type*) where
  message : M
  status : Status
  deriving DecidableEq, Repr

variable {M β : Type*}

/-- What the landed messages amount to, in the order they were sent. -/
def landedOf (f : M → List β) (l : List (Sent M)) : List β :=
  l.flatMap fun s => if s.status = .landed then f s.message else []

/-- What every message that landed or may land amounts to. -/
def liveOf (f : M → List β) (l : List (Sent M)) : List β :=
  l.flatMap fun s => if s.status = .expired then [] else f s.message

def settle (l : List (Sent M)) (i : Nat) (status : Status) : List (Sent M) :=
  l.modify i fun s => { s with status }

/-- Send one more message. -/
def send (l : List (Sent M)) (m : M) : List (Sent M) := l ++ [{ message := m, status := .pending }]

/-! ### What becomes of a message -/

structure Le (s s' : Sent M) : Prop where
  message : s'.message = s.message
  settled : s.status ≠ .pending → s' = s

/-- What may become of a list of messages while none is sent. -/
def Later (l l' : List (Sent M)) : Prop := List.Forall₂ Le l l'

theorem Le.refl (s : Sent M) : Le s s := ⟨rfl, fun _ => rfl⟩

/-- What can still take effect could before. -/
theorem Le.status_ne {s s' : Sent M} (h : Le s s') {status : Status} (hs : s'.status ≠ status)
    (hsettled : status ≠ .pending) : s.status ≠ status := by
  intro heq
  rw [h.settled (by rwa [heq])] at hs
  exact hs heq

theorem Later.refl (l : List (Sent M)) : Later l l := List.forall₂_same.mpr fun s _ => Le.refl s

section Later

variable {l l' : List (Sent M)} {i : Nat} {s : Sent M} {status : Status} {f : M → List β}

/-- Every message was there before. -/
theorem Later.origin (h : Later l l') {s' : Sent M} (hs : s' ∈ l') : ∃ s ∈ l, Le s s' := by
  induction h with
  | nil => cases hs
  | @cons a b l l' hle _ ih =>
      rcases List.mem_cons.mp hs with rfl | hs
      · exact ⟨a, List.mem_cons_self, hle⟩
      · obtain ⟨s, hs, hle⟩ := ih hs
        exact ⟨s, List.mem_cons_of_mem _ hs, hle⟩

theorem Later.messages_eq (h : Later l l') : l'.map (·.message) = l.map (·.message) := by
  induction h with
  | nil => rfl
  | cons hle _ ih => rw [List.map_cons, List.map_cons, hle.message, ih]

/-- Where nothing can still land that amounts to something, what has landed is all. -/
theorem Later.landed_eq (h : Later l l')
    (hsettled : ∀ s ∈ l, s.status = .pending → f s.message = []) :
    landedOf f l' = landedOf f l := by
  induction h with
  | nil => rfl
  | @cons a b l l' hle _ ih =>
      have hrest := ih fun s hs => hsettled s (List.mem_cons_of_mem _ hs)
      simp only [landedOf, List.flatMap_cons] at hrest ⊢
      rw [hrest]
      by_cases ha : a.status = .pending
      · have hnil := hsettled a List.mem_cons_self ha
        rw [hle.message, hnil]
        simp
      · rw [hle.settled ha]

/-- What can land no more cannot land later. -/
theorem Later.live_sublist (h : Later l l') : (liveOf f l').Sublist (liveOf f l) := by
  induction h with
  | nil => exact List.Sublist.refl _
  | @cons a b l l' hle _ ih =>
      simp only [liveOf, List.flatMap_cons]
      refine List.Sublist.append ?_ ih
      by_cases ha : a.status = .expired
      · obtain rfl := hle.settled (by rw [ha]; decide)
        exact List.Sublist.refl _
      · rw [if_neg ha, hle.message]
        split_ifs
        · exact List.nil_sublist _
        · exact List.Sublist.refl _

theorem settle_later (hs : l[i]? = some s) (hp : s.status = .pending) :
    Later l (settle l i status) := by
  unfold settle
  induction l generalizing i with
  | nil => cases hs
  | cons a l ih =>
      cases i with
      | zero =>
          cases hs
          exact .cons ⟨rfl, fun hne => absurd hp hne⟩ (Later.refl l)
      | succ i => exact .cons (Le.refl a) (ih hs)

end Later

/-! ### Settling and sending -/

section Settle

variable {l : List (Sent M)} {i : Nat} {s : Sent M} {f : M → List β} {m : M}

/-- A message that lands adds what it amounts to. -/
theorem landedOf_land (hs : l[i]? = some s) (hp : s.status = .pending) :
    (landedOf f (settle l i .landed)).Perm (f s.message ++ landedOf f l) := by
  unfold settle
  induction l generalizing i with
  | nil => cases hs
  | cons a l ih =>
      cases i with
      | zero =>
          cases hs
          simp [landedOf, hp]
      | succ i =>
          simp only [landedOf, List.modify_succ_cons, List.flatMap_cons] at ih ⊢
          exact ((ih hs).append_left _).trans (List.perm_append_comm_assoc _ _ _)

theorem landedOf_land_of_nil (hs : l[i]? = some s) (hp : s.status = .pending)
    (hf : f s.message = []) :
    landedOf f (settle l i .landed) = landedOf f l := by
  unfold settle
  induction l generalizing i with
  | nil => cases hs
  | cons a l ih =>
      cases i with
      | zero =>
          cases hs
          simp [landedOf, hp, hf]
      | succ i =>
          simp only [landedOf, List.modify_succ_cons, List.flatMap_cons] at ih ⊢
          rw [ih hs]

theorem landedOf_expire (hs : l[i]? = some s) (hp : s.status = .pending) :
    landedOf f (settle l i .expired) = landedOf f l := by
  unfold settle
  induction l generalizing i with
  | nil => cases hs
  | cons a l ih =>
      cases i with
      | zero =>
          cases hs
          simp [landedOf, hp]
      | succ i =>
          simp only [landedOf, List.modify_succ_cons, List.flatMap_cons] at ih ⊢
          rw [ih hs]

theorem messages_settle {status : Status} :
    (settle l i status).map (·.message) = l.map (·.message) := by
  unfold settle
  induction l generalizing i with
  | nil => simp
  | cons a l ih =>
      cases i with
      | zero => simp
      | succ i => simp [ih]

@[simp] theorem landedOf_send : landedOf f (send l m) = landedOf f l := by
  simp [landedOf, send]

@[simp] theorem liveOf_send : liveOf f (send l m) = liveOf f l ++ f m := by
  simp [liveOf, send]

@[simp] theorem messages_send : (send l m).map (·.message) = l.map (·.message) ++ [m] := by
  simp [send]

theorem get_send_self : (send l m)[l.length]? = some { message := m, status := .pending } := by
  simp [send]

theorem landedOf_sublist_liveOf : (landedOf f l).Sublist (liveOf f l) := by
  induction l with
  | nil => exact List.Sublist.refl _
  | cons a l ih =>
      simp only [landedOf, liveOf, List.flatMap_cons]
      refine List.Sublist.append ?_ ih
      by_cases ha : a.status = .landed
      · simp [ha]
      · rw [if_neg ha]
        exact List.nil_sublist _

theorem mem_landedOf {b : β} : b ∈ landedOf f l ↔
    ∃ s ∈ l, s.status = .landed ∧ b ∈ f s.message := by
  unfold landedOf
  simp only [List.mem_flatMap, List.mem_ite_nil_right]

theorem mem_liveOf {b : β} : b ∈ liveOf f l ↔ ∃ s ∈ l, s.status ≠ .expired ∧ b ∈ f s.message := by
  unfold liveOf
  simp only [List.mem_flatMap, List.mem_ite_nil_left, ne_eq]

end Settle

end InFlight
