import Fluffi.CaRRoT.Jenks

/-! The groups of the clustering are a partition, whatever the deviations are: a move only shifts
the border between two groups. -/

namespace Fluffi.CaRRoT

open Fluffi.Systems.Ranges Fluffi.Systems.Slices

variable {α F : Type*}

/-! ### What every move keeps -/

/-- `m` groups that lie in a row up to `total`. The first one and the last one have elements. -/
structure Grouped (m : ℕ) (total : ℤ) (splits : List (ℤ × ℤ)) : Prop where
  length : splits.length = m
  tiles : Tiles 0 total splits
  inside : ∀ r ∈ splits, 0 ≤ r.1 ∧ r.1 ≤ r.2 ∧ r.2 ≤ total
  first : ∃ r, splits[0]? = some r ∧ r.1 < r.2
  last : ∃ r, splits[m - 1]? = some r ∧ r.1 < r.2

/-- The groups of a round, and what it has touched. -/
structure Round.Keeps (m : ℕ) (total : ℤ) (s : Round) : Prop where
  grouped : Grouped m total s.splits
  set : ∀ i ∈ s.set, i < m

section Moves

variable {m p q i : ℕ} {total : ℤ} {splits : List (ℤ × ℤ)} {x y r : ℤ × ℤ} {s : Round}

theorem Grouped.at (h : Grouped m total splits) (hi : i < m) :
    ∃ r, splits[i]? = some r ∧ 0 ≤ r.1 ∧ r.1 ≤ r.2 ∧ r.2 ≤ total := by
  have hlt : i < splits.length := by rwa [h.length]
  exact ⟨splits[i], List.getElem?_eq_getElem hlt, h.inside _ (List.getElem_mem hlt)⟩

/-- The end between two neighbours is moved, and the first and the last group do not lose all they
have. -/
theorem Grouped.move (h : Grouped m total splits) (hn : Neighbours splits p q x y) {z : ℤ}
    (hxz : x.1 ≤ z) (hzy : z ≤ y.2) (hp : p = 0 → x.1 < z) (hq : q = m - 1 → z < y.2) :
    Grouped m total ((splits.set p (x.1, z)).set q (z, y.2)) := by
  have hlt := hn.lt
  obtain ⟨hx0, -, -⟩ := h.inside x (List.mem_of_getElem? hn.left)
  obtain ⟨-, -, hyt⟩ := h.inside y (List.mem_of_getElem? hn.right)
  have hpm := (List.getElem?_eq_some_iff.mp hn.left).1
  have hqm := (List.getElem?_eq_some_iff.mp hn.right).1
  have hget : ∀ k, ((splits.set p (x.1, z)).set q (z, y.2))[k]? =
      if k = q then some (z, y.2) else if k = p then some (x.1, z) else splits[k]? := by
    intro k
    by_cases hkq : q = k
    · rw [if_pos hkq.symm, hkq, List.getElem?_set_self (by rw [List.length_set]; omega)]
    · rw [if_neg (Ne.symm hkq), List.getElem?_set_ne hkq]
      by_cases hkp : p = k
      · rw [if_pos hkp.symm, hkp, List.getElem?_set_self (by omega)]
      · rw [if_neg (Ne.symm hkp), List.getElem?_set_ne hkp]
  constructor
  · rw [List.length_set, List.length_set, h.length]
  · exact (h.tiles.move hn).2 z hxz hzy
  · intro r hr
    obtain ⟨k, hk⟩ := List.mem_iff_getElem?.mp hr
    rw [hget] at hk
    split at hk
    · obtain rfl := Option.some.inj hk
      exact ⟨by dsimp only; omega, hzy, hyt⟩
    · split at hk
      · obtain rfl := Option.some.inj hk
        exact ⟨hx0, hxz, by dsimp only; omega⟩
      · exact h.inside r (List.mem_of_getElem? hk)
  · rw [hget, if_neg (by omega)]
    split
    · rename_i h0
      exact ⟨_, rfl, hp h0.symm⟩
    · exact h.first
  · rw [hget]
    split
    · rename_i hlast
      exact ⟨_, rfl, hq hlast.symm⟩
    · have hm := h.length
      rw [if_neg (by omega)]
      exact h.last

theorem getNextLowerNonEmpty_eq (h : Grouped m total splits) (hi : 0 < i) (him : i ≤ m) :
    ∃ k x, getNextLowerNonEmpty splits i = some (some k) ∧ k < i ∧ splits[k]? = some x ∧
      x.1 < x.2 ∧ ∀ j r, k < j → j < i → splits[j]? = some r → r.1 = r.2 := by
  induction i with
  | zero => exact absurd hi (Nat.lt_irrefl 0)
  | succ i ih =>
    obtain ⟨r, hr, -, hle, -⟩ := h.at (show i < m by omega)
    rw [getNextLowerNonEmpty, hr, Option.bind_some]
    by_cases hpos : r.2 - r.1 > 0
    · rw [if_pos hpos]
      exact ⟨i, r, rfl, Nat.lt_succ_self i, hr, by omega, fun j _ hj hji => by omega⟩
    · rw [if_neg hpos]
      have hi0 : 0 < i := by
        refine Nat.pos_of_ne_zero ?_
        rintro rfl
        obtain ⟨r', hr', hlt⟩ := h.first
        obtain rfl := Option.some.inj (hr.symm.trans hr')
        omega
      obtain ⟨k, x, hk, hki, hx, hlt, hbetween⟩ := ih hi0 (by omega)
      refine ⟨k, x, hk, by omega, hx, hlt, fun j r' hkj hji hr' => ?_⟩
      rcases Nat.lt_succ_iff_lt_or_eq.mp hji with hj | rfl
      · exact hbetween j r' hkj hj hr'
      · obtain rfl := Option.some.inj (hr.symm.trans hr')
        omega

/-- The first group that has elements is found. -/
theorem firstNonEmpty_eq {l : List (ℤ × ℤ)} (hl : ∃ (j : ℕ) (r : ℤ × ℤ), l[j]? = some r ∧ r.1 < r.2)
    (hle : ∀ r ∈ l, r.1 ≤ r.2) (i : ℕ) :
    ∃ k y, firstNonEmpty l i = some (i + k) ∧ l[k]? = some y ∧ y.1 < y.2 ∧
      ∀ j r, j < k → l[j]? = some r → r.1 = r.2 := by
  induction l generalizing i with
  | nil =>
    obtain ⟨j, r, hr, -⟩ := hl
    rw [List.getElem?_nil] at hr
    cases hr
  | cons r l ih =>
    rw [List.forall_mem_cons] at hle
    rw [firstNonEmpty]
    by_cases hpos : r.2 - r.1 > 0
    · rw [if_pos hpos]
      exact ⟨0, r, rfl, rfl, by omega, fun j _ hj => absurd hj (Nat.not_lt_zero j)⟩
    · rw [if_neg hpos]
      obtain ⟨j, r', hr', hlt⟩ := hl
      have hrest : ∃ (j : ℕ) (r : ℤ × ℤ), l[j]? = some r ∧ r.1 < r.2 := by
        cases j with
        | zero =>
          obtain rfl : r = r' := Option.some.inj hr'
          omega
        | succ j => exact ⟨j, r', hr', hlt⟩
      obtain ⟨k, y, hk, hy, hylt, hbefore⟩ := ih hrest hle.2 (i + 1)
      refine ⟨k + 1, y, by rw [hk]; congr 1; omega, hy, hylt, fun j r'' hj hr'' => ?_⟩
      cases j with
      | zero =>
        obtain rfl : r = r'' := Option.some.inj hr''
        have := hle.1
        omega
      | succ j => exact hbefore j r'' (by omega) hr''

theorem getNextHigherNonEmpty_eq (h : Grouped m total splits) (hi : i < m - 1) :
    ∃ k y, getNextHigherNonEmpty splits i = some k ∧ i < k ∧ splits[k]? = some y ∧ y.1 < y.2 ∧
      ∀ j r, i < j → j < k → splits[j]? = some r → r.1 = r.2 := by
  obtain ⟨r, hr, hlt⟩ := h.last
  have hsome : ∃ (j : ℕ) (r : ℤ × ℤ), (splits.drop (i + 1))[j]? = some r ∧ r.1 < r.2 := by
    refine ⟨m - 1 - (i + 1), r, ?_, hlt⟩
    rw [List.getElem?_drop, show i + 1 + (m - 1 - (i + 1)) = m - 1 by omega, hr]
  obtain ⟨k, y, hk, hy, hylt, hbefore⟩ := firstNonEmpty_eq hsome
    (fun r hr => (h.inside r (List.mem_of_mem_drop hr)).2.1) (i + 1)
  refine ⟨i + 1 + k, y, hk, by omega, by rwa [List.getElem?_drop] at hy, hylt, ?_⟩
  intro j r hij hjk hr
  refine hbefore (j - (i + 1)) r (by omega) ?_
  rwa [List.getElem?_drop, show i + 1 + (j - (i + 1)) = j by omega]

theorem change_eq (h : splits[i]? = some r) (f : ℤ × ℤ → ℤ × ℤ) :
    change splits i f = some (splits.set i (f r)) := by
  rw [change, h, Option.map_some]

theorem Round.Keeps.touch (h : s.Keeps m total) {n : ℕ} (hi : i < m) (hn : n < m)
    (hsplits : Grouped m total splits) :
    Round.Keeps m total { s.touch i n with splits := splits } := by
  refine ⟨hsplits, fun j hj => ?_⟩
  rcases List.mem_insert_iff.mp hj with rfl | hj
  · exact hi
  · rcases List.mem_insert_iff.mp hj with rfl | hj
    · exact hn
    · exact h.set j hj

/-- The last group keeps an element when it gives one. -/
theorem moveDown_keeps (h : s.Keeps m total) (hn : Neighbours s.splits p q x y)
    (hlast : q = m - 1 → y.1 + 1 < y.2) :
    ∃ s', moveDown q p s = some s' ∧ s'.Keeps m total ∧
      s'.splits[q]? = some (y.1 + 1, y.2) := by
  obtain ⟨htouch, -⟩ := h.grouped.tiles.move hn
  have hmoved := h.grouped.move hn (z := y.1 + 1) (by have := hn.left_lt; omega)
    (by have := hn.right_lt; omega) (fun _ => by have := hn.left_lt; omega) hlast
  have hne : q ≠ p := Nat.ne_of_gt hn.lt
  obtain ⟨hp, hq⟩ := hn.lt_length
  have hleft : (s.splits.set q (y.1 + 1, y.2))[p]? = some x := by
    rw [List.getElem?_set_ne hne, hn.left]
  refine ⟨_, by rw [moveDown, change_eq hn.right, Option.bind_some, change_eq hleft,
    Option.map_some], ?_, ?_⟩
  · rw [List.set_comm _ _ hne, htouch]
    exact h.touch (h.grouped.length ▸ hq) (h.grouped.length ▸ hp) hmoved
  · exact (List.getElem?_set_ne hne.symm).trans (List.getElem?_set_self hq)

/-- The first group keeps an element when it gives one. -/
theorem moveUp_keeps (h : s.Keeps m total) (hn : Neighbours s.splits p q x y)
    (hfirst : p = 0 → x.1 < x.2 - 1) :
    ∃ s', moveUp p q s = some s' ∧ s'.Keeps m total := by
  obtain ⟨htouch, -⟩ := h.grouped.tiles.move hn
  have hmoved := h.grouped.move hn (z := x.2 - 1) (by have := hn.left_lt; omega)
    (by have := hn.right_lt; omega) hfirst (fun _ => by have := hn.right_lt; omega)
  have hne : p ≠ q := Nat.ne_of_lt hn.lt
  obtain ⟨hp, hq⟩ := hn.lt_length
  have hright : (s.splits.set p (x.1, x.2 - 1))[q]? = some y := by
    rw [List.getElem?_set_ne hne, hn.right]
  refine ⟨_, by rw [moveUp, change_eq hn.left, Option.bind_some, change_eq hright,
    Option.map_some], ?_⟩
  rw [← htouch]
  exact h.touch (h.grouped.length ▸ hp) (h.grouped.length ▸ hq) hmoved

end Moves

/-! ### Rounds -/

section Rounds

variable {dev : Deviations α F} {data : List α} {m cnt i : ℕ} {medians : List F} {total : ℤ}
  {s : Round} {r : ℤ × ℤ} (htotal : total ≤ data.length) (hmedians : medians.length = m)

theorem elementAt_isSome {k : ℤ} (hk : 0 ≤ k) (hlt : k < data.length) :
    ∃ elm, elementAt data k = some elm := by
  rw [elementAt, if_pos hk]
  exact ⟨_, List.getElem?_eq_getElem (show k.toNat < data.length by omega)⟩

include htotal hmedians

theorem closer_isSome {side : Side} {k : ℤ} {n n' : ℕ} (hk : 0 ≤ k) (hlt : k < total)
    (hn : n < m) (hn' : n' < m) :
    ∃ b, closer dev data cnt medians side i k n n' = some b := by
  obtain ⟨elm, helm⟩ := elementAt_isSome hk (show k < data.length by omega)
  rw [closer, List.getElem?_eq_getElem (by omega), Option.bind_some, helm, Option.bind_some,
    List.getElem?_eq_getElem (by omega), Option.map_some]
  exact ⟨_, rfl⟩

theorem visitSingle_keeps (h : s.Keeps m total) (hr : s.splits[i]? = some r)
    (hone : r.2 - r.1 = 1) (hi : i < m) :
    ∃ s', visitSingle dev data m cnt medians i s = some s' ∧ s'.Keeps m total := by
  obtain ⟨hr0, -, hrt⟩ := h.grouped.inside r (List.mem_of_getElem? hr)
  have hrlt : r.1 < r.2 := by omega
  by_cases hin : 0 < i ∧ i < m - 1
  · obtain ⟨lo, x, hlo, hloi, hx, hxlt, hbelow⟩ :=
      getNextLowerNonEmpty_eq h.grouped hin.1 (by omega)
    obtain ⟨hi', y, hhi, hihi, hy, hylt, habove⟩ := getNextHigherNonEmpty_eq h.grouped hin.2
    have hhm : hi' < m := h.grouped.length ▸ (List.getElem?_eq_some_iff.mp hy).1
    obtain ⟨up, hup⟩ : ∃ up, closer dev data cnt medians .single i r.1 hi' lo = some up :=
      closer_isSome htotal hmedians hr0 (show r.1 < total by omega) hhm (show lo < m by omega)
    rw [visitSingle, hr, Option.bind_some, hlo, Option.bind_some, if_pos hin, hhi]
    simp only [hup, Option.bind_some]
    cases up with
    | true =>
      exact moveUp_keeps h ⟨hihi, hr, hy, hrlt, hylt, habove⟩ (fun h0 => by omega)
    | false =>
      obtain ⟨s', hs', hkeeps, -⟩ := moveDown_keeps h ⟨hloi, hx, hr, hxlt, hrlt, hbelow⟩
        (fun hlast => by omega)
      exact ⟨s', hs', hkeeps⟩
  · obtain ⟨lo, hlo⟩ : ∃ lo, getNextLowerNonEmpty s.splits i = some lo := by
      rcases Nat.eq_zero_or_pos i with rfl | hpos
      · exact ⟨none, rfl⟩
      · obtain ⟨k, -, hk, -⟩ := getNextLowerNonEmpty_eq h.grouped hpos (Nat.le_of_lt hi)
        exact ⟨some k, hk⟩
    rw [visitSingle, hr, Option.bind_some, hlo, Option.bind_some, if_neg hin]
    exact ⟨s, rfl, h⟩

/-- The group keeps an element for the other end, and all of them if it is the first. -/
theorem visitLow_keeps (h : s.Keeps m total) (hr : s.splits[i]? = some r)
    (hsize : 1 < r.2 - r.1) (hi : i < m) :
    ∃ s' r', visitLow dev data cnt medians i s = some s' ∧ s'.Keeps m total ∧
      s'.splits[i]? = some r' ∧ r'.1 < r'.2 ∧ (i = 0 → r'.1 < r'.2 - 1) := by
  obtain ⟨hr0, -, hrt⟩ := h.grouped.inside r (List.mem_of_getElem? hr)
  by_cases hpos : 0 < i
  · obtain ⟨n, x, hn, hni, hx, hxlt, hbelow⟩ :=
      getNextLowerNonEmpty_eq h.grouped hpos (Nat.le_of_lt hi)
    obtain ⟨down, hdown⟩ : ∃ down, closer dev data cnt medians .low i r.1 n i = some down :=
      closer_isSome htotal hmedians hr0 (show r.1 < total by omega) (show n < m by omega) hi
    rw [visitLow, if_pos hpos, hr, Option.bind_some, hn, Option.bind_some, Option.bind_some,
      hdown, Option.bind_some]
    cases down with
    | true =>
      obtain ⟨s', hs', hkeeps, hget⟩ := moveDown_keeps h
        ⟨hni, hx, hr, hxlt, by omega, hbelow⟩ (fun _ => by omega)
      exact ⟨s', _, hs', hkeeps, hget, by dsimp only; omega, fun h0 => by omega⟩
    | false => exact ⟨s, r, rfl, h, hr, by omega, fun h0 => by omega⟩
  · rw [visitLow, if_neg hpos]
    exact ⟨s, r, rfl, h, hr, by omega, fun _ => by omega⟩

theorem visitHigh_keeps (h : s.Keeps m total) (hr : s.splits[i]? = some r) (hlt : r.1 < r.2)
    (hfirst : i = 0 → r.1 < r.2 - 1) :
    ∃ s', visitHigh dev data m cnt medians i s = some s' ∧ s'.Keeps m total := by
  obtain ⟨hr0, -, hrt⟩ := h.grouped.inside r (List.mem_of_getElem? hr)
  by_cases hlast : i < m - 1
  · obtain ⟨n, y, hn, hin, hy, hylt, habove⟩ := getNextHigherNonEmpty_eq h.grouped hlast
    have hnb : Neighbours s.splits i n r y := ⟨hin, hr, hy, hlt, hylt, habove⟩
    have htouch := (h.grouped.tiles.move hnb).1
    obtain ⟨-, -, hyt⟩ := h.grouped.inside y (List.mem_of_getElem? hy)
    have hnm : n < m := h.grouped.length ▸ hnb.lt_length.2
    obtain ⟨up, hup⟩ : ∃ up, closer dev data cnt medians .high i r.2 n i = some up :=
      closer_isSome htotal hmedians (show 0 ≤ r.2 by omega) (show r.2 < total by omega) hnm
        (show i < m by omega)
    rw [visitHigh, if_pos hlast, hr, Option.bind_some, hn, Option.bind_some, hup,
      Option.bind_some]
    cases up with
    | true => exact moveUp_keeps h hnb hfirst
    | false => exact ⟨s, rfl, h⟩
  · rw [visitHigh, if_neg hlast]
    exact ⟨s, rfl, h⟩

theorem visit_keeps (h : s.Keeps m total) (hi : i < m) :
    ∃ s', visit dev data m cnt medians s i = some s' ∧ s'.Keeps m total := by
  obtain ⟨r, hr, hr0, hle, hrt⟩ := h.grouped.at hi
  rw [visit, hr, Option.bind_some]
  by_cases hzero : r.2 - r.1 = 0
  · rw [if_pos hzero]
    exact ⟨s, rfl, h⟩
  · rw [if_neg hzero]
    by_cases hone : r.2 - r.1 = 1
    · rw [if_pos hone]
      exact visitSingle_keeps htotal hmedians h hr hone hi
    · rw [if_neg hone, if_neg (show ¬r.2 - r.1 < 0 by omega)]
      obtain ⟨s', r', hs', hkeeps, hr', hlt, hfirst⟩ :=
        @visitLow_keeps _ _ dev data m cnt i medians total s r htotal hmedians h hr (by omega) hi
      rw [hs', Option.bind_some]
      exact visitHigh_keeps htotal hmedians hkeeps hr' hlt hfirst

omit hmedians in
theorem elements_isSome (h0 : 0 ≤ r.1) (hle : r.1 ≤ r.2) (hr : r.2 ≤ total) :
    ∃ group, elements data r = some group := by
  rw [elements, if_pos ⟨h0, by omega⟩, slice, if_pos (by omega)]
  exact ⟨_, rfl⟩

omit hmedians in
theorem redoMedians_length {splits : List (ℤ × ℤ)} (h : Grouped m total splits) {elms : List ℕ}
    (helms : ∀ i ∈ elms, i < m) (hmedians : medians.length = m) :
    ∃ medians', redoMedians dev data splits elms medians = some medians' ∧
      medians'.length = m := by
  induction elms generalizing medians with
  | nil => exact ⟨medians, rfl, hmedians⟩
  | cons i elms ih =>
    rw [List.forall_mem_cons] at helms
    obtain ⟨r, hr, h0, hle, hrt⟩ := h.at helms.1
    obtain ⟨group, hgroup⟩ := elements_isSome htotal h0 hle hrt
    rw [redoMedians, hr, Option.bind_some, hgroup, Option.bind_some, if_pos (by omega)]
    exact ih helms.2 ((List.length_set).trans hmedians)

/-- The groups lie in a row after any number of rounds. -/
theorem rounds_grouped {splits : List (ℤ × ℤ)} (h : Grouped m total splits) (left : ℕ) :
    ∃ splits', rounds dev data m left cnt splits medians = some splits' ∧
      Grouped m total splits' := by
  induction left generalizing cnt splits medians with
  | zero => exact ⟨splits, rfl, h⟩
  | succ left ih =>
    obtain ⟨s, hs, hkeeps⟩ := @foldlM_keeps _ (List.range m) _ (Round.Keeps m total)
      (visit dev data m cnt medians)
      (fun s hs i hi => visit_keeps htotal hmedians hs (List.mem_range.mp hi))
      ⟨splits, 0, fun _ => none, []⟩ ⟨h, fun i hi => absurd hi List.not_mem_nil⟩
    obtain ⟨medians', hmed, hlength⟩ : ∃ medians',
        redoMedians dev data s.splits s.set medians = some medians' ∧ medians'.length = m :=
      redoMedians_length htotal hkeeps.grouped hkeeps.set hmedians
    rw [rounds, hs, Option.bind_some, hmed, Option.bind_some]
    split
    · exact ⟨s.splits, rfl, hkeeps.grouped⟩
    · exact ih hlength hkeeps.grouped

end Rounds

/-! ### The partition -/

/-- Every one of `n` elements is in one group, and the groups lie in a row. -/
structure IsPartition (n : ℕ) (groups : List (ℤ × ℤ)) : Prop where
  nonempty : ∀ g ∈ groups, g.1 < g.2
  consecutive : Tiles 0 (n : ℤ) groups
  once : ∀ k : ℤ, 0 ≤ k → k < n → groups.countP (fun g => g.1 ≤ k ∧ k < g.2) = 1

/-- No access is out of range, and the groups are a partition. -/
def YieldsPartition (dev : Deviations α F) (data : List α) (maxgroups : ℕ) : Prop :=
  ∃ groups, jenksGroup dev data maxgroups = some groups ∧ IsPartition data.length groups

section Partition

variable {dev : Deviations α F} {data : List α} {m n : ℕ}

theorem evenSplits_grouped (hm : 1 ≤ m) (hn : m ≤ n) :
    Grouped m ((m * (n / m) : ℕ) : ℤ) (evenSplits m n) := by
  have hinc : 1 ≤ n / m := (Nat.one_le_div_iff hm).mpr hn
  have hstep : ∀ i, i * (n / m) + n / m = (i + 1) * (n / m) := fun i => (Nat.succ_mul i _).symm
  have hget : ∀ i < m, (evenSplits m n)[i]? =
      some (((i * (n / m) : ℕ) : ℤ), (((i + 1) * (n / m) : ℕ) : ℤ)) := by
    intro i hi
    rw [evenSplits, List.getElem?_map, List.getElem?_range hi, Option.map_some]
  have hlt : ∀ i, ((i * (n / m) : ℕ) : ℤ) < (((i + 1) * (n / m) : ℕ) : ℤ) := by
    intro i
    have := hstep i
    omega
  constructor
  · rw [evenSplits, List.length_map, List.length_range]
  · have htiles := tiles_range (f := fun i : ℕ => ((i * (n / m) : ℕ) : ℤ))
      (fun i => (hlt i).le) m
    simpa only [Nat.zero_mul, Int.ofNat_zero, evenSplits] using htiles
  · intro r hr
    obtain ⟨i, hi, rfl⟩ := List.mem_map.mp hr
    have hle : (i + 1) * (n / m) ≤ m * (n / m) :=
      Nat.mul_le_mul_right _ (List.mem_range.mp hi)
    exact ⟨Int.natCast_nonneg _, (hlt i).le, by dsimp only; omega⟩
  · exact ⟨_, hget 0 hm, hlt 0⟩
  · exact ⟨_, hget (m - 1) (by omega), hlt (m - 1)⟩

/-- The groups cover what the equal splits cover. -/
theorem jenksGroup_tiles (dev : Deviations α F) (hm : 1 ≤ m) (hle : m ≤ data.length) :
    ∃ groups, jenksGroup dev data m = some groups ∧ (∀ g ∈ groups, g.1 < g.2) ∧
      Tiles 0 ((m * (data.length / m) : ℕ) : ℤ) groups := by
  have hgrouped := evenSplits_grouped hm hle
  have htotal : ((m * (data.length / m) : ℕ) : ℤ) ≤ data.length := by
    have := Nat.mul_div_le data.length m
    omega
  obtain ⟨medians, hmedians, hlength⟩ := mapM_isSome (l := evenSplits m data.length)
    (f := fun r => (elements data r).map dev.median) fun r hr => by
      obtain ⟨h0, hr12, hrt⟩ := hgrouped.inside r hr
      obtain ⟨group, hgroup⟩ := elements_isSome htotal h0 hr12 hrt
      exact ⟨_, by rw [hgroup, Option.map_some]⟩
  obtain ⟨splits, hsplits, hkept⟩ : ∃ splits, rounds dev data m (data.length * data.length) 0
      (evenSplits m data.length) medians = some splits ∧ Grouped m _ splits :=
    rounds_grouped htotal (hlength.trans hgrouped.length) hgrouped _
  refine ⟨_, by rw [jenksGroup, if_neg (by omega), hmedians, Option.bind_some, hsplits,
    Option.map_some], fun g hg => ?_, hkept.tiles.filter⟩
  obtain ⟨hmem, hne⟩ := List.mem_filter.mp hg
  exact lt_of_le_of_ne (hkept.inside g hmem).2.1 (by simpa using hne)

/-- However the deviations compare, the groups are a partition if the elements can be split into
groups of one size to begin with. Else the elements of the remainder are in no group. -/
theorem jenksGroup_partition_iff (dev : Deviations α F) (hm : 1 ≤ m) (hle : m ≤ data.length) :
    YieldsPartition dev data m ↔ m ∣ data.length := by
  obtain ⟨groups, hgroups, hlt, htiles⟩ := jenksGroup_tiles dev hm hle
  constructor
  · rintro ⟨groups', hgroups', hpart⟩
    obtain rfl := Option.some.inj (hgroups.symm.trans hgroups')
    have hmul := Nat.mul_div_le data.length m
    by_contra hnot
    have hshort : m * (data.length / m) < data.length :=
      Nat.lt_of_le_of_ne hmul fun heq => hnot ⟨_, heq.symm⟩
    have hcount := htiles.countP ((m * (data.length / m) : ℕ) : ℤ)
    rw [hpart.once _ (Int.natCast_nonneg _) (by omega), if_neg (by omega)] at hcount
    omega
  · intro hdvd
    rw [Nat.mul_div_cancel' hdvd] at htiles
    refine ⟨groups, hgroups, hlt, htiles, fun k h0 hk => ?_⟩
    rw [htiles.countP, if_pos ⟨h0, hk⟩]

/-- Two groups of four elements, when no element moves. -/
theorem jenksGroup_four :
    YieldsPartition (⟨fun _ => (), fun _ _ _ _ _ _ => false⟩ : Deviations ℤ Unit) [1, 2, 3, 4] 2 :=
  (jenksGroup_partition_iff _ (by decide) (by decide)).mpr (by decide)

/-- Two groups of three elements have no deviation to compare, and the third element is in none. -/
theorem not_jenksGroup_three :
    ¬YieldsPartition (⟨fun _ => (), fun _ _ _ _ _ _ => false⟩ : Deviations ℤ Unit) [1, 2, 3] 2 := by
  rintro ⟨groups, hgroups, hpart⟩
  have hrun : jenksGroup (⟨fun _ => (), fun _ _ _ _ _ _ => false⟩ : Deviations ℤ Unit)
      [1, 2, 3] 2 = some [(0, 1), (1, 2)] := by decide
  obtain rfl := Option.some.inj (hrun.symm.trans hgroups)
  exact absurd (hpart.once 2 (by decide) (by decide)) (by decide)

end Partition

end Fluffi.CaRRoT
