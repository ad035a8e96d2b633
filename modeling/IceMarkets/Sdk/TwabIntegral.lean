import IceMarkets.Sdk.Twab
import IceMarkets.Lib.StepPath
import Mathlib.Data.List.TakeWhile

/-!
# IceMarkets.Sdk.TwabIntegral

The loop of `computeTwab` is the time integral of the running balance.

The sum the loop carries, completed with the balance up to the end of the window, grows
by each event's delta weighted by the time left (`weigh_spec`). So over the sorted
events it weighs every delta by the time it is in force (`weightedSum_eq`), which is
the integral of the running balance, and depends on the events as a multiset only.

No difference of times in a window of at most `2^53` seconds is rounded; that of a longer one
can be, and the mean with it (`computeTwab_rounded`).
-/

namespace IceMarkets.Sdk

open InsertionMap JsNumber

variable {K : Type} [DecidableEq K]

/-- A wallet's running balance: every delta up to a time. -/
noncomputable def runningBalance (events : List (BalanceEvent K)) (wallet : K) : ℝ → ℝ :=
  StepPath.value (fun ev => (ev.ts : ℝ)) (fun ev => (ev.delta : ℝ))
    (events.filter (·.wallet = wallet))

/-- Its integral over a window. -/
noncomputable def balanceIntegral (events : List (BalanceEvent K)) (wallet : K)
    (start stop : Int) : ℝ :=
  ∫ t in (start : ℝ)..stop, runningBalance events wallet t

/-- How long a delta is in force in a window. -/
def held (start stop ts : Int) : Int := max 0 (stop - max start ts)

section Loop

variable {start stop : Int} {l : List (BalanceEvent K)}

omit [DecidableEq K]

/-- The weighted sum, with the balance carried to the end of the window. -/
def Weighing.upTo (s : Weighing) (stop : Int) : Int := s.weightedSum + s.balance * (stop - s.cursor)

/-- Differences of times in the window are exact. -/
theorem toNumber_sub {a b : Int} (hlen : stop - start ≤ safe) (ha : start ≤ a) (hab : a ≤ b)
    (hb : b ≤ stop) : toNumber (b - a) = b - a :=
  toNumber_of_abs_le (abs_le.mpr ⟨by unfold safe; omega, by omega⟩)

/-- One event adds its delta for the time left. -/
theorem weigh_upTo {s : Weighing} {ev : BalanceEvent K} (hlen : stop - start ≤ safe)
    (hstart : start ≤ s.cursor) (hts : s.cursor ≤ ev.ts) (hstop : ev.ts ≤ stop) :
    (weigh start s ev).cursor = ev.ts ∧
      (weigh start s ev).upTo stop = s.upTo stop + ev.delta * (stop - ev.ts) := by
  have hmax : max ev.ts start = ev.ts := max_eq_left (hstart.trans hts)
  unfold weigh Weighing.upTo
  simp only [hmax, toNumber_sub hlen hstart hts hstop]
  by_cases hlt : s.cursor < ev.ts
  · simp only [hlt, if_true, true_and]
    ring
  · have heq : s.cursor = ev.ts := le_antisymm hts (not_lt.mp hlt)
    simp only [heq, lt_irrefl, if_false, true_and]
    ring

/-- The loop over sorted events inside the window. -/
theorem weigh_spec (hlen : stop - start ≤ safe) (hsorted : l.Pairwise (·.ts ≤ ·.ts))
    {s : Weighing} (hstart : start ≤ s.cursor) (hcursor : s.cursor ≤ stop)
    (hin : ∀ ev ∈ l, s.cursor ≤ ev.ts ∧ ev.ts ≤ stop) :
    (start ≤ (l.foldl (weigh start) s).cursor ∧ (l.foldl (weigh start) s).cursor ≤ stop) ∧
      (l.foldl (weigh start) s).upTo stop =
        s.upTo stop + (l.map fun ev => ev.delta * (stop - ev.ts)).sum := by
  induction l generalizing s with
  | nil => exact ⟨⟨hstart, hcursor⟩, by simp⟩
  | cons ev l ih =>
      obtain ⟨hle, hsorted⟩ := List.pairwise_cons.mp hsorted
      obtain ⟨hev, hstop⟩ := hin ev List.mem_cons_self
      obtain ⟨hcur, hup⟩ := @weigh_upTo K start stop s ev hlen hstart hev hstop
      obtain ⟨hlast, hsum⟩ := @ih hsorted (weigh start s ev) (hcur ▸ hstart.trans hev)
        (hcur ▸ hstop)
        (fun ev' hev' => ⟨hcur ▸ hle ev' hev', (hin ev' (List.mem_cons_of_mem _ hev')).2⟩)
      refine ⟨hlast, ?_⟩
      rw [List.foldl_cons, hsum, hup, List.map_cons, List.sum_cons]
      ring

/-- In a sorted list what follows the events before a time is at or after it. -/
theorem le_of_mem_dropWhile (hsorted : l.Pairwise (·.ts ≤ ·.ts)) {bound : Int} {ev : BalanceEvent K}
    (h : ev ∈ l.dropWhile (·.ts < bound)) : bound ≤ ev.ts := by
  induction l with
  | nil => cases h
  | cons x l ih =>
      obtain ⟨hle, hsorted⟩ := List.pairwise_cons.mp hsorted
      by_cases hx : x.ts < bound
      · rw [List.dropWhile_cons_of_pos (by simpa using hx)] at h
        exact ih hsorted h
      · rw [List.dropWhile_cons_of_neg (by simpa using hx)] at h
        rcases List.mem_cons.mp h with rfl | hmem
        · exact not_lt.mp hx
        · exact (not_lt.mp hx).trans (hle ev hmem)

theorem lt_of_mem_takeWhile {bound : Int} {ev : BalanceEvent K}
    (h : ev ∈ l.takeWhile (·.ts < bound)) :
    ev.ts < bound := by
  simpa using List.mem_takeWhile_imp h

/-- The loop weighs each delta by the time it is in force. -/
theorem weightedSum_eq (h : start < stop) (hlen : stop - start ≤ safe)
    (evs : List (BalanceEvent K)) :
    weightedSum start stop evs = (evs.map fun ev => ev.delta * held start stop ev.ts).sum := by
  unfold weightedSum
  simp only
  have hperm : (evs.insertionSort (·.ts ≤ ·.ts)).Perm evs := List.perm_insertionSort _ _
  have hsorted : (evs.insertionSort (·.ts ≤ ·.ts)).Pairwise (·.ts ≤ ·.ts) :=
    List.pairwise_insertionSort _ _
  rw [← (hperm.map fun ev => ev.delta * held start stop ev.ts).sum_eq]
  generalize evs.insertionSort (·.ts ≤ ·.ts) = sorted at hsorted
  -- before the window, inside it, after it
  have hrest := @le_of_mem_dropWhile K sorted hsorted start
  have hsortedRest : (sorted.dropWhile (·.ts < start)).Pairwise (·.ts ≤ ·.ts) :=
    hsorted.sublist (List.dropWhile_sublist _)
  conv_rhs => rw [← sorted.takeWhile_append_dropWhile (p := (·.ts < start))]
  have hbefore : ∀ ev ∈ sorted.takeWhile (·.ts < start), ev.delta * held start stop ev.ts =
      ev.delta * (stop - start) := by
    intro ev hev
    have hlt := lt_of_mem_takeWhile hev
    have hheld : held start stop ev.ts = stop - start := by
      unfold held
      omega
    rw [hheld]
  generalize sorted.takeWhile (·.ts < start) = before at hbefore ⊢
  generalize sorted.dropWhile (·.ts < start) = rest at hrest hsortedRest ⊢
  conv_rhs => rw [← rest.takeWhile_append_dropWhile (p := (·.ts < stop))]
  have hafter : ∀ ev ∈ rest.dropWhile (·.ts < stop), ev.delta * held start stop ev.ts = 0 := by
    intro ev hev
    have hge := le_of_mem_dropWhile hsortedRest hev
    have hheld : held start stop ev.ts = 0 := by
      unfold held
      omega
    rw [hheld, mul_zero]
  have hinside : ∀ ev ∈ rest.takeWhile (·.ts < stop), ev.delta * held start stop ev.ts =
      ev.delta * (stop - ev.ts) := by
    intro ev hev
    have hge := hrest ((List.takeWhile_sublist _).subset hev)
    have hlt := lt_of_mem_takeWhile hev
    have hheld : held start stop ev.ts = stop - ev.ts := by
      unfold held
      omega
    rw [hheld]
  obtain ⟨⟨hfirst, hcursor⟩, hup⟩ := @weigh_spec K start stop (rest.takeWhile (·.ts < stop)) hlen
    (hsortedRest.sublist (List.takeWhile_sublist _))
    { balance := (before.map (·.delta)).sum, weightedSum := 0, cursor := start } le_rfl h.le
    (fun ev hev => ⟨hrest ((List.takeWhile_sublist _).subset hev), (lt_of_mem_takeWhile hev).le⟩)
  have hlast : ∀ s : Weighing, start ≤ s.cursor → s.cursor ≤ stop →
      (if s.cursor < stop then s.weightedSum + s.balance * toNumber (stop - s.cursor)
        else s.weightedSum) = s.upTo stop := by
    intro s hs₀ hs
    unfold Weighing.upTo
    split_ifs with hlt
    · rw [toNumber_sub hlen hs₀ hs le_rfl]
    · rw [le_antisymm hs (not_lt.mp hlt), sub_self, mul_zero, add_zero]
  rw [hlast _ hfirst hcursor, hup, List.map_append, List.sum_append, List.map_append,
    List.sum_append, List.map_congr_left hbefore, List.map_congr_left hinside,
    List.map_congr_left hafter]
  simp [Weighing.upTo, List.sum_map_mul_right]

end Loop

/-! ### The integral -/

section Integral

variable {start stop : Int} {events : List (BalanceEvent K)} {wallet : K}

theorem held_cast (start stop ts : Int) :
    ((held start stop ts : Int) : ℝ) = StepPath.inForce (start : ℝ) stop ts := by
  unfold held StepPath.inForce
  push_cast
  rfl

/-- A delta counts for the time it is in force. -/
theorem balanceIntegral_eq (h : start < stop) :
    balanceIntegral events wallet start stop =
      (((events.filter (·.wallet = wallet)).map fun ev =>
        ev.delta * held start stop ev.ts).sum : Int) := by
  have hle : (start : ℝ) ≤ stop := by exact_mod_cast h.le
  unfold balanceIntegral runningBalance
  rw [StepPath.integral_value hle, Int.cast_list_sum, List.map_map]
  simp [Function.comp_def, held_cast]

omit [DecidableEq K] in
/-- Permuted events have the same weighted sum. -/
theorem weightedSum_perm (h : start < stop) (hlen : stop - start ≤ safe)
    {evs evs' : List (BalanceEvent K)} (hp : evs.Perm evs') :
    weightedSum start stop evs = weightedSum start stop evs' := by
  rw [weightedSum_eq h hlen, weightedSum_eq h hlen]
  exact (hp.map _).sum_eq

omit [DecidableEq K] in
/-- Weighted sums of windows that meet add up. -/
theorem weightedSum_adjacent {mid : Int} (h : start < mid) (h' : mid < stop)
    (hlen : stop - start ≤ safe) (evs : List (BalanceEvent K)) :
    weightedSum start mid evs + weightedSum mid stop evs = weightedSum start stop evs := by
  rw [weightedSum_eq h (by omega), weightedSum_eq h' (by omega), weightedSum_eq (h.trans h') hlen,
    ← List.sum_map_add]
  refine congrArg List.sum (List.map_congr_left fun ev _ => ?_)
  have hheld : held start stop ev.ts = held start mid ev.ts + held mid stop ev.ts := by
    unfold held
    omega
  rw [hheld]
  ring

end Integral

/-! ### The map -/

section Entries

variable {start stop : Int} {events : List (BalanceEvent K)} {opts : TwabOptions K} {V V' : Type}

/-- The value of a key after some entries are dropped and the others mapped. -/
theorem lookup_filterMap {l : List (K × V)} (h : (l.map (·.1)).Nodup) (g : V → Option V') (k : K) :
    (l.filterMap fun e => (g e.2).map fun v => (e.1, v)).lookup k = (l.lookup k).bind g := by
  induction l with
  | nil => rfl
  | cons e l ih =>
      obtain ⟨key, val⟩ := e
      obtain ⟨hnot, hnodup⟩ := List.nodup_cons.mp h
      by_cases hk : k = key
      · subst hk
        have hnone : l.lookup k = none := lookup_eq_none hnot
        rw [List.filterMap_cons, List.lookup_cons_self]
        cases hg : g val with
        | none => simp [hg, ih hnodup, hnone]
        | some v => simp [hg]
      · have hne : (k == key) = false := beq_eq_false_iff_ne.mpr hk
        have hother : ((key, val) :: l).lookup k = l.lookup k := by simp [List.lookup_cons, hne]
        rw [List.filterMap_cons, hother]
        cases hg : g val with
        | none => simp [ih hnodup]
        | some v => simp [List.lookup_cons, hne, ih hnodup]

theorem foldl_collect (evs acc : List V) :
    evs.foldl (fun o x => some (o.getD [] ++ [x])) (some acc) = some (acc ++ evs) := by
  induction evs generalizing acc with
  | nil => simp
  | cons x evs ih =>
      rw [List.foldl_cons]
      exact (ih (acc ++ [x])).trans (by simp)

/-- The events `byWallet` lists for a wallet. -/
theorem lookup_byWallet (events : List (BalanceEvent K)) (exclude : List K) (w : K) :
    ((byWallet events exclude).lookup w).getD [] =
      if w ∈ exclude then [] else events.filter (·.wallet = w) := by
  unfold byWallet
  rw [lookup_fold, List.filter_filter]
  by_cases hw : w ∈ exclude
  · have hnil : events.filter (fun ev => decide (ev.wallet = w) && decide
        (ev.wallet ∉ exclude)) = [] := by
      refine List.filter_eq_nil_iff.mpr fun ev _ hev => ?_
      simp only [Bool.and_eq_true, decide_eq_true_eq] at hev
      exact hev.2 (hev.1 ▸ hw)
    rw [hnil, if_pos hw]
    rfl
  · have hsame : events.filter (fun ev => decide (ev.wallet = w) && decide (ev.wallet ∉ exclude)) =
        events.filter (·.wallet = w) := by
      refine List.filter_congr fun ev _ => ?_
      by_cases hev : ev.wallet = w
      · simp [hev, hw]
      · simp [hev]
    rw [hsame, if_neg hw]
    cases events.filter (·.wallet = w) with
    | nil => rfl
    | cons x evs =>
        have hcollect := foldl_collect evs [x]
        simp only [List.foldl_cons, List.lookup_nil, Option.getD_none, List.nil_append]
        rw [hcollect]
        rfl

/-- A wallet's entry, from the weighted sum of its events. -/
theorem lookup_computeTwab {twab : List (K × Nat)}
    (h : computeTwab events opts = some twab) (w : K) :
    twab.lookup w =
      if w ∉ opts.exclude ∧ 0 < weightedSum opts.start opts.stop (events.filter (·.wallet = w)) then
        some (weightedSum opts.start opts.stop
          (events.filter (·.wallet = w)) / toNumber (opts.stop - opts.start)).toNat
      else none := by
  unfold computeTwab at h
  split_ifs at h with hwindow
  have hkeys : ((byWallet events opts.exclude).map (·.1)).Nodup := nodup_fold _ _ _ (by simp)
  have hgroup := lookup_byWallet events opts.exclude w
  let g : List (BalanceEvent K) → Option Nat := fun evs =>
    if 0 < weightedSum opts.start opts.stop evs then
      some (weightedSum opts.start opts.stop evs / toNumber (opts.stop - opts.start)).toNat
    else none
  have hmap : twab = (byWallet events opts.exclude).filterMap fun e => (g e.2).map fun v =>
      (e.1, v) := by
    refine (Option.some.inj h).symm.trans (List.filterMap_congr fun e _ => ?_)
    simp only [g]
    split_ifs <;> rfl
  have hempty : g [] = none := by
    have hzero : weightedSum opts.start opts.stop ([] : List (BalanceEvent K)) = 0 := by
      simp [weightedSum]
    simp only [g, hzero, lt_irrefl, if_false]
  have hbind : ((byWallet events opts.exclude).lookup w).bind g =
      g (((byWallet events opts.exclude).lookup w).getD []) := by
    cases (byWallet events opts.exclude).lookup w with
    | none => exact hempty.symm
    | some evs => rfl
  rw [hmap, lookup_filterMap hkeys, hbind, hgroup]
  by_cases hw : w ∈ opts.exclude
  · simp [hw, hempty]
  · simp [hw, g]

/-- Two lists of entries that agree on every key. -/
theorem perm_of_lookup_eq {m m' : List (K × V)} (h : (m.map (·.1)).Nodup)
    (h' : (m'.map (·.1)).Nodup)
    (heq : ∀ k, m.lookup k = m'.lookup k) : m.Perm m' := by
  refine (List.perm_ext_iff_of_nodup h.of_map h'.of_map).mpr fun e => ?_
  rw [show e = (e.1, e.2) from rfl, mem_iff_lookup h, mem_iff_lookup h', heq]

/-- The floor of a quotient of integers. -/
theorem floor_div (w : Int) {d : Int} (h : 0 < d) : ⌊(w : ℝ) / d⌋ = w / d := by
  have hd : (0 : ℝ) < d := by exact_mod_cast h
  rw [Int.floor_eq_iff, le_div_iff₀ hd, div_lt_iff₀ hd]
  constructor
  · exact_mod_cast Int.ediv_mul_le w h.ne'
  · exact_mod_cast Int.lt_ediv_add_one_mul_self w h

/-- In a window of at most `2^53` seconds, `computeTwab` gives every wallet that is not
excluded the floor of its mean balance where its integral is positive, and lists no other
wallet; it gives permuted events the same entries; and a wallet's integrals over windows
that meet add up. -/
theorem computeTwab_integral (h : start < stop) (hlen : stop - start ≤ 2 ^ 53)
    (events : List (BalanceEvent K)) (exclude : List K) :
    ∃ twab, computeTwab events { start, stop, exclude } = some twab ∧ (twab.map (·.1)).Nodup ∧
      (∀ wallet, wallet ∉ exclude → 0 < balanceIntegral events wallet start stop →
        twab.lookup wallet =
          some ⌊balanceIntegral events wallet start stop / (stop - start)⌋.toNat) ∧
      (∀ wallet, wallet ∈ exclude ∨ balanceIntegral events wallet start stop ≤ 0 →
        twab.lookup wallet = none) ∧
      (∀ events', events'.Perm events →
        ∃ twab', computeTwab events' { start, stop, exclude } = some twab' ∧ twab'.Perm twab) ∧
      (∀ wallet mid, balanceIntegral events wallet start mid +
        balanceIntegral events wallet mid stop =
        balanceIntegral events wallet start stop) ∧
      ∀ mid evs, start < mid → mid < stop →
        weightedSum start mid evs + weightedSum mid stop evs =
          weightedSum (K := K) start stop evs := by
  have hsome : ∀ evs : List (BalanceEvent K), ∃ twab,
    computeTwab evs { start, stop, exclude } = some twab :=
    fun evs => ⟨_, if_neg (not_le.mpr h)⟩
  obtain ⟨twab, htwab⟩ := hsome events
  have hlookup := lookup_computeTwab htwab
  simp only [toNumber_sub hlen le_rfl h.le le_rfl] at hlookup
  have hintegral : ∀ wallet, balanceIntegral events wallet start stop =
      (weightedSum start stop (events.filter (·.wallet = wallet)) : Int) := by
    intro wallet
    rw [balanceIntegral_eq h, weightedSum_eq h hlen]
  refine ⟨twab, htwab, nodup_computeTwab htwab, fun wallet hw hpos => ?_, fun wallet hw => ?_,
    fun events' hp => ?_, fun wallet mid => StepPath.integral_adjacent _ _ _ _,
    fun mid evs hmid hmid' => weightedSum_adjacent hmid hmid' hlen evs⟩
  · rw [hintegral] at hpos ⊢
    have hposInt : 0 < weightedSum start stop
      (events.filter (·.wallet = wallet)) := by exact_mod_cast hpos
    have hfloor := floor_div (weightedSum start stop (events.filter (·.wallet = wallet)))
      (sub_pos.mpr h)
    push_cast at hfloor
    rw [hlookup, if_pos ⟨hw, hposInt⟩, hfloor]
  · rw [hlookup, if_neg]
    intro hx
    obtain ⟨hnot, hpos⟩ := hx
    rcases hw with hw | hle
    · exact hnot hw
    · rw [hintegral] at hle
      have hleInt : weightedSum start stop (events.filter (·.wallet = wallet)) ≤
        0 := by exact_mod_cast hle
      omega
  · obtain ⟨twab', htwab'⟩ := hsome events'
    refine ⟨twab', htwab', perm_of_lookup_eq (nodup_computeTwab htwab')
      (nodup_computeTwab htwab) fun k => ?_⟩
    rw [lookup_computeTwab htwab']
    simp only [toNumber_sub hlen le_rfl h.le le_rfl, hlookup,
      weightedSum_perm h hlen (hp.filter _)]

/-- A wallet that buys 600 a third into the window, and one that holds nothing. -/
theorem computeTwab_integral_sample :
    ∃ twab, computeTwab [{ wallet := "a", delta := 600, ts := 10 },
      { wallet := "b", delta := 5, ts := 90 }]
        { start := 0, stop := 30, exclude := [] } = some twab ∧
      twab.lookup "a" = some 400 ∧ twab.lookup "b" = none := by
  obtain ⟨twab, htwab, -⟩ := @computeTwab_integral String _ 0 30 (by decide) (by decide)
    [{ wallet := "a", delta := 600, ts := 10 }, { wallet := "b", delta := 5, ts := 90 }] []
  refine ⟨twab, htwab, ?_, ?_⟩
  · rw [lookup_computeTwab htwab]
    decide +kernel
  · rw [lookup_computeTwab htwab]
    decide +kernel

/-- A wallet that holds one unit for `2^53` of `2^53 + 1` seconds: the length of the window
is rounded down to the time it held, and its mean balance is not 0. -/
theorem computeTwab_rounded :
    ∃ (events : List (BalanceEvent String)) (start stop : Int), start < stop ∧
      (computeTwab events { start, stop, exclude := [] }).bind (·.lookup "a") = some 1 ∧
      0 < balanceIntegral events "a" start stop ∧
      ⌊balanceIntegral events "a" start stop / (stop - start)⌋.toNat = 0 := by
  have hlt : (-2 : Int) < 2 ^ 53 - 1 := by decide
  refine ⟨[{ wallet := "a", delta := 1, ts := -2 },
      { wallet := "a", delta := -1, ts := 2 ^ 53 - 2 }],
    -2, 2 ^ 53 - 1, hlt, by decide +kernel, ?_⟩
  rw [balanceIntegral_eq hlt]
  have hsum : (([{ wallet := "a", delta := 1, ts := -2 },
      { wallet := "a", delta := -1, ts := 2 ^ 53 - 2 }].filter fun ev : BalanceEvent String =>
        ev.wallet = "a").map fun ev => ev.delta * held (-2) (2 ^ 53 - 1) ev.ts).sum = 2 ^ 53 := by
    decide +kernel
  rw [hsum, ← Int.cast_sub, floor_div _ (sub_pos.mpr hlt)]
  exact ⟨by norm_num, by decide⟩

end Entries

end IceMarkets.Sdk
