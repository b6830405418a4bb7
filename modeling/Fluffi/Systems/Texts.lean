import Mathlib.Data.List.Infix
import Mathlib.Data.List.TakeWhile
import Mathlib.Data.List.Induction

/-! Searching in lists and cutting them. The first place at which a pattern stands, seen as
the rest of the list from there; the parts before and behind the last separator; and the
list without what is blank at its ends. -/

namespace Fluffi.Systems

variable {α : Type*}

/-! ### The first place of a pattern -/

theorem append_singleton_prefix_iff {a : α} {p x : List α} (hp : a ∉ p) (hx : a ∉ x)
    (y : List α) : p ++ [a] <+: x ++ a :: y ↔ p = x := by
  induction p generalizing x with
  | nil =>
    cases x with
    | nil => simp
    | cons b x =>
      have hab : a ≠ b := fun h => hx (h ▸ List.mem_cons_self)
      simp [hab]
  | cons c p ih =>
    have hp' : a ∉ p := fun h => hp (.tail _ h)
    cases x with
    | nil =>
      have hca : c ≠ a := fun h => hp (h ▸ List.mem_cons_self)
      simp [hca]
    | cons b x =>
      rw [List.cons_append, List.cons_append, List.cons_prefix_cons,
        ih hp' (fun h => hx (.tail _ h)), List.cons.injEq]

section Search

variable [BEq α] [LawfulBEq α]

/-- The rest of the list from the first place at which the pattern stands. -/
def findFirst (pattern l : List α) : Option (List α) := l.tails.find? (pattern.isPrefixOf ·)

theorem findFirst_cons (pattern : List α) (a : α) (l : List α) :
    findFirst pattern (a :: l) =
      if pattern.isPrefixOf (a :: l) then some (a :: l) else findFirst pattern l := by
  rw [findFirst, List.tails_cons, List.find?_cons]
  split <;> simp_all [findFirst]

theorem findFirst_isSome_iff {pattern l : List α} :
    (findFirst pattern l).isSome = true ↔ pattern <:+: l := by
  rw [findFirst, List.find?_isSome, List.infix_iff_prefix_suffix]
  constructor
  · rintro ⟨t, ht, hp⟩
    exact ⟨t, List.isPrefixOf_iff_prefix.mp hp, (List.mem_tails _ _).mp ht⟩
  · rintro ⟨t, hp, ht⟩
    exact ⟨t, (List.mem_tails _ _).mpr ht, List.isPrefixOf_iff_prefix.mpr hp⟩

omit [LawfulBEq α] in
theorem suffix_of_findFirst {pattern l t : List α} (h : findFirst pattern l = some t) :
    t <:+ l :=
  (List.mem_tails _ _).mp (List.mem_of_find?_eq_some h)

theorem findFirst_of_isPrefixOf {pattern l : List α} (h : pattern <+: l) :
    findFirst pattern l = some l := by
  cases l with
  | nil =>
    obtain rfl := List.prefix_nil.mp h
    rfl
  | cons a l => rw [findFirst_cons, if_pos (List.isPrefixOf_iff_prefix.mpr h)]

/-- No place starts in a part that lacks the first element of the pattern. -/
theorem findFirst_append_of_notMem {a : α} {pattern pre : List α} (ha : a ∉ pre)
    (l : List α) : findFirst (a :: pattern) (pre ++ l) = findFirst (a :: pattern) l := by
  induction pre with
  | nil => rfl
  | cons b pre ih =>
    rw [List.mem_cons, not_or] at ha
    rw [List.cons_append, findFirst_cons, if_neg, ih ha.2]
    rw [List.isPrefixOf_iff_prefix, List.cons_prefix_cons]
    exact fun h => ha.1 h.1

/-- The first `a` of a list ends a pattern whose only `a` is the last one. -/
theorem findFirst_append_cons_of_suffix {a : α} {p x : List α} (hp : a ∉ p) (hx : a ∉ x)
    (h : p <:+ x) (y : List α) : findFirst (p ++ [a]) (x ++ a :: y) = some (p ++ a :: y) := by
  induction x with
  | nil =>
    obtain rfl := List.suffix_nil.mp h
    exact findFirst_of_isPrefixOf ⟨y, by simp⟩
  | cons b x ih =>
    have hiff := append_singleton_prefix_iff hp hx y
    rcases List.suffix_cons_iff.mp h with rfl | htail
    · exact findFirst_of_isPrefixOf (hiff.mpr rfl)
    · rw [List.cons_append, findFirst_cons, if_neg, ih (fun h => hx (.tail _ h)) htail]
      rw [List.isPrefixOf_iff_prefix, ← List.cons_append, hiff]
      rintro rfl
      have := htail.length_le
      rw [List.length_cons] at this
      omega

theorem findFirst_append_cons_of_not_suffix {a : α} {p x : List α} (hp : a ∉ p) (hx : a ∉ x)
    (h : ¬ p <:+ x) (y : List α) :
    findFirst (p ++ [a]) (x ++ a :: y) = findFirst (p ++ [a]) y := by
  induction x with
  | nil =>
    have hiff := append_singleton_prefix_iff hp hx y
    rw [List.nil_append] at hiff ⊢
    rw [findFirst_cons, if_neg]
    rw [List.isPrefixOf_iff_prefix, hiff]
    rintro rfl
    exact h List.suffix_rfl
  | cons b x ih =>
    have hiff := append_singleton_prefix_iff hp hx y
    rw [List.suffix_cons_iff, not_or] at h
    rw [List.cons_append, findFirst_cons, if_neg, ih (fun h => hx (.tail _ h)) h.2]
    rw [List.isPrefixOf_iff_prefix, ← List.cons_append, hiff]
    exact h.1

end Search

theorem prefix_append_cons_iff {pattern x y : List α} {a : α} (ha : a ∉ pattern) :
    pattern <+: x ++ a :: y ↔ pattern <+: x := by
  induction x generalizing pattern with
  | nil =>
    cases pattern with
    | nil => simp
    | cons b pattern =>
      constructor
      · intro h
        obtain ⟨rfl, -⟩ := List.cons_prefix_cons.mp h
        exact absurd List.mem_cons_self ha
      · intro h
        exact absurd (List.prefix_nil.mp h) (List.cons_ne_nil _ _)
  | cons b x ih =>
    cases pattern with
    | nil => simp
    | cons c pattern =>
      rw [List.mem_cons, not_or] at ha
      rw [List.cons_append, List.cons_prefix_cons, List.cons_prefix_cons, ih ha.2]

/-- A pattern does not reach over an element that it lacks. -/
theorem infix_append_cons_iff {pattern x y : List α} {a : α} (ha : a ∉ pattern) :
    pattern <:+: x ++ a :: y ↔ pattern <:+: x ∨ pattern <:+: y := by
  constructor
  · intro h
    induction x with
    | nil =>
      rcases List.infix_cons_iff.mp h with hp | hi
      · exact .inl ((@prefix_append_cons_iff _ _ [] _ _ ha).mp hp).isInfix
      · exact .inr hi
    | cons b x ih =>
      rcases List.infix_cons_iff.mp h with hp | hi
      · exact .inl ((prefix_append_cons_iff (x := b :: x) ha).mp hp).isInfix
      · rcases ih hi with hx | hy
        · exact .inl (List.infix_cons_iff.mpr (.inr hx))
        · exact .inr hy
  · rintro (h | h)
    · exact h.trans (List.prefix_append _ _).isInfix
    · exact h.trans ((List.suffix_cons a y).trans (List.suffix_append x _)).isInfix

section Cut

variable [DecidableEq α] (sep : α)

/-- The part behind the last separator; everything if there is none. -/
def afterLast (l : List α) : List α := (l.reverse.takeWhile (· ≠ sep)).reverse

/-- The part before the last separator; nothing if there is none. -/
def beforeLast (l : List α) : List α := ((l.reverse.dropWhile (· ≠ sep)).drop 1).reverse

variable {sep}

theorem afterLast_append_cons (u : List α) {v : List α} (hv : sep ∉ v) :
    afterLast sep (u ++ sep :: v) = v := by
  have hv' : ∀ c ∈ v.reverse, decide (c ≠ sep) = true := by
    intro c hc
    simpa using fun h : c = sep => hv (h ▸ List.mem_reverse.mp hc)
  rw [afterLast, List.reverse_append, List.reverse_cons, List.append_assoc,
    List.takeWhile_append_of_pos hv', List.singleton_append,
    List.takeWhile_cons_of_neg (by simp)]
  simp

theorem beforeLast_append_cons (u : List α) {v : List α} (hv : sep ∉ v) :
    beforeLast sep (u ++ sep :: v) = u := by
  have hv' : ∀ c ∈ v.reverse, decide (c ≠ sep) = true := by
    intro c hc
    simpa using fun h : c = sep => hv (h ▸ List.mem_reverse.mp hc)
  rw [beforeLast, List.reverse_append, List.reverse_cons, List.append_assoc,
    List.dropWhile_append_of_pos hv', List.singleton_append,
    List.dropWhile_cons_of_neg (by simp)]
  simp

theorem afterLast_of_notMem {l : List α} (h : sep ∉ l) : afterLast sep l = l := by
  rw [afterLast, List.takeWhile_eq_self_iff.mpr, List.reverse_reverse]
  intro c hc
  simpa using fun heq : c = sep => h (heq ▸ List.mem_reverse.mp hc)

/-- A list with a separator is cut at the last one. -/
theorem exists_cut {l : List α} (h : sep ∈ l) : ∃ u v, l = u ++ sep :: v ∧ sep ∉ v := by
  induction l with
  | nil => cases h
  | cons a l ih =>
    by_cases hl : sep ∈ l
    · obtain ⟨u, v, rfl, hv⟩ := ih hl
      exact ⟨a :: u, v, rfl, hv⟩
    · obtain rfl : sep = a := by simpa [hl] using h
      exact ⟨[], l, rfl, hl⟩

theorem notMem_afterLast (l : List α) : sep ∉ afterLast sep l := by
  by_cases h : sep ∈ l
  · obtain ⟨u, v, rfl, hv⟩ := exists_cut h
    rwa [afterLast_append_cons u hv]
  · rwa [afterLast_of_notMem h]

theorem beforeLast_append_afterLast {l : List α} (h : sep ∈ l) :
    beforeLast sep l ++ sep :: afterLast sep l = l := by
  obtain ⟨u, v, rfl, hv⟩ := exists_cut h
  rw [beforeLast_append_cons u hv, afterLast_append_cons u hv]

/-- The last separator tells both parts apart. -/
theorem append_cons_inj {u v u' v' : List α} (hv : sep ∉ v) (hv' : sep ∉ v')
    (h : u ++ sep :: v = u' ++ sep :: v') : u = u' ∧ v = v' := by
  have hbefore := congrArg (beforeLast sep) h
  have hafter := congrArg (afterLast sep) h
  rw [beforeLast_append_cons u hv, beforeLast_append_cons u' hv'] at hbefore
  rw [afterLast_append_cons u hv, afterLast_append_cons u' hv'] at hafter
  exact ⟨hbefore, hafter⟩

theorem afterLast_append_of_mem (u : List α) {v : List α} (hv : sep ∈ v) :
    afterLast sep (u ++ v) = afterLast sep v := by
  obtain ⟨x, y, rfl, hy⟩ := exists_cut hv
  rw [← List.append_assoc, afterLast_append_cons _ hy, afterLast_append_cons _ hy]

theorem afterLast_suffix (l : List α) : afterLast sep l <:+ l := by
  by_cases h : sep ∈ l
  · obtain ⟨u, v, rfl, hv⟩ := exists_cut h
    rw [afterLast_append_cons u hv]
    exact ⟨u ++ [sep], by simp⟩
  · rw [afterLast_of_notMem h]

theorem afterLast_append_sep (u v : List α) :
    afterLast sep (u ++ sep :: v) = afterLast sep v := by
  by_cases hv : sep ∈ v
  · rw [show u ++ sep :: v = (u ++ [sep]) ++ v by simp, afterLast_append_of_mem _ hv]
  · rw [afterLast_append_cons u hv, afterLast_of_notMem hv]

theorem getLast?_splitOn (l : List α) : (l.splitOn sep).getLast? = some (afterLast sep l) := by
  by_cases h : sep ∈ l
  · obtain ⟨u, v, rfl, hv⟩ := exists_cut h
    rw [List.splitOn_append_cons_self, List.splitOn_eq_singleton hv, List.getLast?_append,
      afterLast_append_cons u hv]
    rfl
  · rw [List.splitOn_eq_singleton h, afterLast_of_notMem h]
    rfl

theorem notMem_of_mem_splitOn {l p : List α} (hp : p ∈ l.splitOn sep) : sep ∉ p := by
  induction l generalizing p with
  | nil =>
    obtain rfl : p = [] := by simpa using hp
    simp
  | cons a l ih =>
    rw [List.splitOn_cons_eq_if_modifyHead] at hp
    split at hp
    case isTrue =>
      rcases List.mem_cons.mp hp with rfl | hp
      · simp
      · exact ih hp
    case isFalse ha =>
      obtain ⟨q, qs, hqs⟩ := List.exists_cons_of_ne_nil (List.splitOn_ne_nil sep l)
      rw [hqs, List.modifyHead_cons, List.mem_cons] at hp
      rcases hp with rfl | hp
      · rw [List.mem_cons, not_or]
        exact ⟨fun h => by simp [h] at ha, ih (hqs ▸ List.mem_cons_self)⟩
      · exact ih (hqs ▸ List.mem_cons_of_mem _ hp)

/-- A part of a list that is cut has its elements from the list. -/
theorem subset_of_mem_splitOn {l p : List α} (hp : p ∈ l.splitOn sep) : p ⊆ l := by
  induction l generalizing p with
  | nil =>
    obtain rfl : p = [] := by simpa using hp
    exact List.nil_subset _
  | cons a l ih =>
    rw [List.splitOn_cons_eq_if_modifyHead] at hp
    split at hp
    case isTrue =>
      rcases List.mem_cons.mp hp with rfl | hp
      · exact List.nil_subset _
      · exact List.Subset.trans (ih hp) (List.subset_cons_self a l)
    case isFalse =>
      obtain ⟨q, qs, hqs⟩ := List.exists_cons_of_ne_nil (List.splitOn_ne_nil sep l)
      rw [hqs, List.modifyHead_cons, List.mem_cons] at hp
      rcases hp with rfl | hp
      · exact List.cons_subset_cons a (ih (hqs ▸ List.mem_cons_self))
      · exact List.Subset.trans (ih (hqs ▸ List.mem_cons_of_mem _ hp)) (List.subset_cons_self a l)

theorem idxOf?_append_cons {u : List α} (h : sep ∉ u) (v : List α) :
    (u ++ sep :: v).idxOf? sep = some u.length := by
  induction u with
  | nil => simp [List.idxOf?_cons]
  | cons c u ih =>
    rw [List.mem_cons, not_or] at h
    rw [List.cons_append, List.idxOf?_cons, ih h.2]
    simp [Ne.symm h.1]

end Cut

/-! ### The ends -/

section Trim

variable (blank : α → Bool)

/-- Without what is blank at the end. -/
def trimEnd (l : List α) : List α := (l.reverse.dropWhile blank).reverse

/-- Without what is blank at both ends. -/
def trim (l : List α) : List α := trimEnd blank (l.dropWhile blank)

variable {blank}

theorem trimEnd_append_of_blank (l : List α) {b : List α} (hb : ∀ a ∈ b, blank a = true) :
    trimEnd blank (l ++ b) = trimEnd blank l := by
  rw [trimEnd, List.reverse_append, List.dropWhile_append_of_pos, trimEnd]
  intro a ha
  exact hb a (List.mem_reverse.mp ha)

theorem trimEnd_append_singleton (l : List α) {a : α} (ha : blank a = false) :
    trimEnd blank (l ++ [a]) = l ++ [a] := by
  simp [trimEnd, ha]

theorem trimEnd_append_cons (u : List α) {a : α} (ha : blank a = false) (v : List α) :
    trimEnd blank (u ++ a :: v) = u ++ a :: trimEnd blank v := by
  induction v using List.reverseRecOn with
  | nil => exact trimEnd_append_singleton u ha
  | append_singleton v b ih =>
    rw [← List.cons_append, ← List.append_assoc]
    cases hb : blank b with
    | false => rw [trimEnd_append_singleton _ hb, trimEnd_append_singleton _ hb]; simp
    | true =>
      have hblank : ∀ c ∈ [b], blank c = true := by simp [hb]
      rw [trimEnd_append_of_blank _ hblank, trimEnd_append_of_blank _ hblank, ih]

theorem trimEnd_cons_of_blank {a : α} (ha : blank a = true) (l : List α) :
    trimEnd blank (a :: l) = if trimEnd blank l = [] then [] else a :: trimEnd blank l := by
  induction l using List.reverseRecOn with
  | nil => simp [trimEnd, ha]
  | append_singleton l b ih =>
    rw [← List.cons_append]
    cases hb : blank b with
    | false =>
      rw [trimEnd_append_singleton _ hb, trimEnd_append_singleton _ hb, if_neg (by simp)]
      rfl
    | true =>
      have hblank : ∀ c ∈ [b], blank c = true := by simp [hb]
      rw [trimEnd_append_of_blank _ hblank, trimEnd_append_of_blank _ hblank, ih]

theorem trimEnd_eq_self {l : List α} (h : ∀ a ∈ l.getLast?, blank a = false) :
    trimEnd blank l = l := by
  induction l using List.reverseRecOn with
  | nil => rfl
  | append_singleton l a => exact trimEnd_append_singleton l (h a (by simp))

theorem exists_trimEnd (l : List α) :
    ∃ b, l = trimEnd blank l ++ b ∧ ∀ a ∈ b, blank a = true := by
  induction l using List.reverseRecOn with
  | nil => exact ⟨[], rfl, by simp⟩
  | append_singleton l a ih =>
    cases ha : blank a with
    | false => exact ⟨[], by rw [trimEnd_append_singleton l ha, List.append_nil], by simp⟩
    | true =>
      obtain ⟨b, hl, hb⟩ := ih
      refine ⟨b ++ [a], ?_, ?_⟩
      · rw [trimEnd_append_of_blank l (by simp [ha]), ← List.append_assoc, ← hl]
      · intro c hc
        rcases List.mem_append.mp hc with hc | hc
        · exact hb c hc
        · rw [List.mem_singleton.mp hc, ha]

theorem getLast?_trimEnd {l : List α} {a : α} (h : a ∈ (trimEnd blank l).getLast?) :
    blank a = false := by
  induction l using List.reverseRecOn with
  | nil => simp [trimEnd] at h
  | append_singleton l c ih =>
    cases hc : blank c with
    | false =>
      rw [trimEnd_append_singleton l hc] at h
      obtain rfl : c = a := by simpa using h
      exact hc
    | true =>
      rw [trimEnd_append_of_blank l (by simp [hc])] at h
      exact ih h

theorem trim_subset (l : List α) : trim blank l ⊆ l := by
  obtain ⟨b, hb, -⟩ := @exists_trimEnd _ blank (l.dropWhile blank)
  intro a ha
  apply (List.dropWhile_suffix blank).subset
  rw [hb]
  exact List.mem_append_left b ha

theorem trimEnd_eq_self_iff {l : List α} :
    trimEnd blank l = l ↔ ∀ a ∈ l.getLast?, blank a = false :=
  ⟨fun h _ ha => getLast?_trimEnd (h.symm ▸ ha), trimEnd_eq_self⟩

theorem trimEnd_eq_nil_iff {l : List α} : trimEnd blank l = [] ↔ ∀ a ∈ l, blank a = true := by
  rw [trimEnd, List.reverse_eq_nil_iff, List.dropWhile_eq_nil_iff]
  simp

theorem count_trimEnd [BEq α] [LawfulBEq α] {a : α} (ha : blank a = false) (l : List α) :
    (trimEnd blank l).count a = l.count a := by
  obtain ⟨b, hl, hb⟩ := @exists_trimEnd _ blank l
  have hnone : b.count a = 0 := by
    rw [List.count_eq_zero]
    intro hmem
    rw [hb a hmem] at ha
    cases ha
  conv_rhs => rw [hl]
  rw [List.count_append, hnone, Nat.add_zero]

end Trim

end Fluffi.Systems
