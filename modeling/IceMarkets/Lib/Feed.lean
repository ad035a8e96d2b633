import Mathlib.Data.List.Nodup
import Mathlib.Data.List.TakeWhile
import Mathlib.Data.List.Infix

/-!
# IceMarkets.Lib.Feed

Feeds that list their entries newest first and grow at the front, as a reader with a
cursor sees them.

A cursor `c` cuts a feed in what is newer than it and what is not. A reader that asks
page after page, each page older than the last entry it has, reads the entries newer
than its cursor in order, while the feed grows (`pages_eq`).
-/

namespace Feed

variable {α κ : Type*} [DecidableEq κ] (key : α → κ)

/-- The entries newer than a cursor; all where there is none, or it is not there. -/
def newerThan (c : Option κ) (feed : List α) : List α := feed.takeWhile fun x => some (key x) ≠ c

/-- The entries up to and including the cursor. -/
def upTo (c : Option κ) (feed : List α) : List α := feed.dropWhile fun x => some (key x) ≠ c

/-- The entries before an entry; all where none is named. -/
def olderThan (before : Option κ) (feed : List α) : List α :=
  match before with
  | none => feed
  | some _ => (upTo key before feed).tail

/-! ### Cursors -/

section Cursor

variable {key} {c d : Option κ} {feed : List α} {x : α}

theorem newerThan_append_upTo (c : Option κ) (feed : List α) :
    newerThan key c feed ++ upTo key c feed = feed :=
  List.takeWhile_append_dropWhile

@[simp] theorem newerThan_none (feed : List α) : newerThan key none feed = feed := by
  simp [newerThan]

@[simp] theorem upTo_none (feed : List α) : upTo key none feed = [] := by
  simp [upTo, List.dropWhile_eq_nil_iff]

theorem mem_of_mem_newerThan (h : x ∈ newerThan key c feed) : x ∈ feed :=
  List.takeWhile_subset _ h

theorem mem_of_mem_upTo (h : x ∈ upTo key c feed) : x ∈ feed :=
  List.dropWhile_subset _ h

theorem mem_newerThan_or_upTo (h : x ∈ feed) : x ∈ newerThan key c feed ∨ x ∈ upTo key c feed := by
  have hsplit : x ∈ newerThan key c feed ++ upTo key c feed := by rwa [newerThan_append_upTo]
  exact List.mem_append.mp hsplit

theorem ne_of_mem_newerThan (h : x ∈ newerThan key c feed) : some (key x) ≠ c := by
  have hx := List.mem_takeWhile_imp h
  simpa using hx

theorem upTo_eq_of_append {A B : List α} (hA : ∀ a ∈ A, some (key a) ≠ c)
    (hx : some (key x) = c) : upTo key c (A ++ x :: B) = x :: B := by
  unfold upTo
  rw [List.dropWhile_append_of_pos (by simpa using hA),
    List.dropWhile_cons_of_neg (by simpa using hx)]

omit [DecidableEq κ] in
/-- What is new at the front of a feed is not what it had. -/
theorem ne_of_nodup {new : List α} (h : ((new ++ feed).map key).Nodup) (hx : x ∈ feed)
    {a : α} (ha : a ∈ new) : key a ≠ key x := by
  rw [List.map_append] at h
  exact (List.nodup_append.mp h).2.2 _ (List.mem_map_of_mem ha) _ (List.mem_map_of_mem hx)

theorem newerThan_grow {new : List α} (h : ((new ++ feed).map key).Nodup) (hx : x ∈ feed) :
    newerThan key (some (key x)) (new ++ feed) = new ++ newerThan key (some (key x)) feed := by
  have hnew : ∀ a ∈ new, some (key a) ≠ some (key x) := fun a ha heq =>
    ne_of_nodup h hx ha (Option.some.inj heq)
  unfold newerThan
  exact List.takeWhile_append_of_pos (by simpa using hnew)

theorem upTo_grow {new : List α} (h : ((new ++ feed).map key).Nodup) (hx : x ∈ feed) :
    upTo key (some (key x)) (new ++ feed) = upTo key (some (key x)) feed := by
  have hnew : ∀ a ∈ new, some (key a) ≠ some (key x) := fun a ha heq =>
    ne_of_nodup h hx ha (Option.some.inj heq)
  unfold upTo
  exact List.dropWhile_append_of_pos (by simpa using hnew)

/-- Nothing is at once newer than a cursor and not. -/
theorem disjoint (h : (feed.map key).Nodup) (hn : x ∈ newerThan key c feed) :
    x ∉ upTo key c feed := by
  have hsplit : ((newerThan key c feed ++ upTo key c feed).map key).Nodup := by
    rwa [newerThan_append_upTo]
  rw [List.map_append] at hsplit
  intro hu
  exact (List.nodup_append.mp hsplit).2.2 _ (List.mem_map_of_mem hn) _ (List.mem_map_of_mem hu) rfl

end Cursor

/-! ### Pages -/

/-- The newest `limit` entries that are before an entry and newer than the cursor. -/
def page (before c : Option κ) (limit : Nat) (feed : List α) : List α :=
  (newerThan key c (olderThan key before feed)).take limit

/-- Pages of at most `size` entries until one is short, or `limit` entries are read:
the `k`-th page is asked of the feed as it then is. `fuel` bounds the number of pages. -/
def pages (size : Nat) (feed : Nat → List α) (c : Option κ) :
    (fuel k : Nat) → (before : Option κ) → (limit : Nat) → List α
  | 0, _, _, _ => []
  | fuel + 1, k, before, limit =>
      if limit = 0 then []
      else
        let p := page key before c (min size limit) (feed k)
        if p.isEmpty then []
        else p ++ if p.length < size then []
          else pages size feed c fuel (k + 1) (p.getLast?.map key) (limit - p.length)

section Pages

variable {key} {size : Nat} {feed : Nat → List α} {c : Option κ}

theorem newerThan_drop {l : List α} {n : Nat} (hn : n ≤ (newerThan key c l).length) :
    newerThan key c (l.drop n) = (newerThan key c l).drop n := by
  have hsplit : l.drop n = (newerThan key c l).drop n ++ upTo key c l := by
    calc l.drop n = (newerThan key c l ++ upTo key c l).drop n := by rw [newerThan_append_upTo]
      _ = _ := List.drop_append_of_le_length hn
  have hall : ∀ x ∈ (newerThan key c l).drop n, some (key x) ≠ c := fun x hx =>
    ne_of_mem_newerThan (List.mem_of_mem_drop hx)
  have hrest : newerThan key c (upTo key c l) = [] := by
    unfold newerThan upTo
    cases hu : l.dropWhile fun x => decide (some (key x) ≠ c) with
    | nil => rfl
    | cons y B =>
        have hy := List.head?_dropWhile_not (fun z => decide (some (key z) ≠ c)) l
        rw [hu] at hy
        exact List.takeWhile_cons_of_neg (by simpa using hy)
  calc newerThan key c (l.drop n)
      = newerThan key c ((newerThan key c l).drop n ++ upTo key c l) := by rw [hsplit]
    _ = (newerThan key c l).drop n ++ newerThan key c (upTo key c l) :=
        List.takeWhile_append_of_pos (by simpa using hall)
    _ = (newerThan key c l).drop n := by rw [hrest, List.append_nil]

/-- What is before the `n`-th entry of a feed, once the feed has grown. -/
theorem olderThan_grow {l l' : List α} (hgrow : l <:+ l') (hnodup : (l'.map key).Nodup)
    {n : Nat} {x : α}
    (hx : l[n]? = some x) : olderThan key (some (key x)) l' = l.drop (n + 1) := by
  obtain ⟨new, rfl⟩ := hgrow
  obtain ⟨hn, rfl⟩ := List.getElem?_eq_some_iff.mp hx
  have hsplit : new ++ l = (new ++ l.take n) ++ l[n] :: l.drop (n + 1) := by
    rw [List.append_assoc, ← List.drop_eq_getElem_cons hn, List.take_append_drop]
  rw [hsplit] at hnodup
  have hne : ∀ a ∈ new ++ l.take n, some (key a) ≠ some (key l[n]) := fun a ha heq =>
    ne_of_nodup hnodup List.mem_cons_self ha (Option.some.inj heq)
  unfold olderThan
  simp only
  rw [hsplit, upTo_eq_of_append hne rfl, List.tail_cons]

/-- The last entry of a full page, where it stands in the feed. -/
theorem getLast?_page {n : Nat} (hsize : 0 < size)
    (hlen : n + size ≤ (newerThan key c (feed 0)).length) :
    ∃ x, (((newerThan key c (feed 0)).drop n).take size).getLast? = some x ∧
      (feed 0)[n + size - 1]? = some x := by
  have hlt : n + size - 1 < (newerThan key c (feed 0)).length := by omega
  refine ⟨(newerThan key c (feed 0))[n + size - 1], ?_, ?_⟩
  · rw [List.getLast?_eq_getElem?, List.length_take, List.length_drop,
      Nat.min_eq_left (by omega), List.getElem?_take_of_lt (by omega), List.getElem?_drop,
      show n + (size - 1) = n + size - 1 by omega, List.getElem?_eq_getElem hlt]
  · calc (feed 0)[n + size - 1]?
        = (newerThan key c (feed 0) ++ upTo key c (feed 0))[n + size - 1]? := by
          rw [newerThan_append_upTo]
      _ = (newerThan key c (feed 0))[n + size - 1]? := List.getElem?_append_left hlt
      _ = some _ := List.getElem?_eq_getElem hlt

/-- A reader that has the first `n` entries newer than its cursor reads the next ones. -/
theorem pages_drop (hgrow : ∀ k, feed 0 <:+ feed k) (hnodup : ∀ k, ((feed k).map key).Nodup)
    (hsize : 0 < size) {fuel k n limit : Nat} {before : Option κ} (hfuel : limit ≤ fuel)
    (hn : n ≤ (newerThan key c (feed 0)).length)
    (hbefore : olderThan key before (feed k) = (feed 0).drop n) :
    pages key size feed c fuel k before limit = ((newerThan key c (feed 0)).drop n).take limit := by
  induction fuel generalizing k n limit before with
  | zero =>
      obtain rfl := Nat.le_zero.mp hfuel
      rfl
  | succ fuel ih =>
      have hpage : page key before c (min size limit) (feed k) =
          ((newerThan key c (feed 0)).drop n).take (min size limit) := by
        unfold page
        rw [hbefore, newerThan_drop hn]
      have hlen := List.length_drop (i := n) (l := newerThan key c (feed 0))
      unfold pages
      by_cases hl : limit = 0
      · simp [hl]
      rw [if_neg hl]
      simp only [hpage, List.isEmpty_iff, List.take_eq_nil_iff, List.length_take]
      by_cases hempty : min size limit = 0 ∨ (newerThan key c (feed 0)).drop n = []
      · have hnil : (newerThan key c (feed 0)).drop n = [] := by
          rcases hempty with h | h
          · omega
          · exact h
        simp [hnil]
      rw [if_neg hempty]
      by_cases hshort : min (min size limit) ((newerThan key c (feed 0)).drop n).length < size
      · -- the page is cut by the limit, or by the end of the feed
        rw [if_pos hshort, List.append_nil]
        by_cases hls : limit ≤ size
        · rw [Nat.min_eq_right hls]
        · rw [List.take_of_length_le (by omega), List.take_of_length_le (by omega)]
      · rw [if_neg hshort]
        obtain ⟨x, hx, hx0⟩ := @getLast?_page α κ _ key size feed c n hsize (by omega)
        have hnext := @ih (k + 1) (n + size) (limit - size) (some (key x)) (by omega) (by omega) (by
          rw [olderThan_grow (hgrow (k + 1))
            (hnodup (k + 1)) hx0, show n + size - 1 + 1 = n + size by omega])
        rw [show min size limit = size by omega, hx, Option.map_some,
          show min size ((newerThan key c (feed 0)).drop n).length = size by omega, hnext,
          ← List.drop_drop, ← List.take_add, show size + (limit - size) = limit by omega]

/-- Page after page, a reader gets the newest entries there were at its first page. -/
theorem pages_eq (hgrow : ∀ k, feed 0 <:+ feed k) (hnodup : ∀ k, ((feed k).map key).Nodup)
    (hsize : 0 < size) (limit : Nat) :
    pages key size feed c limit 0 none limit = (newerThan key c (feed 0)).take limit := by
  have h := @pages_drop α κ _ key size feed c hgrow hnodup hsize limit 0 0 limit none le_rfl
    (Nat.zero_le _) rfl
  simpa using h

end Pages

end Feed
