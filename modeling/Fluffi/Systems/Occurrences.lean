import Mathlib.Data.List.Infix
import Mathlib.Order.Lattice
import Mathlib.Tactic.SplitIfs

/-! Where a pattern stands in a list. The list is cut at one place after the other, from left
to right, and the next place is looked for behind the last one. -/

namespace Fluffi.Systems.Occurrences

variable {α : Type*} [BEq α]

/-- The first place of the pattern. -/
def firstIndex (pattern : List α) : List α → Option ℕ
  | [] => if pattern.isPrefixOf [] then some 0 else none
  | a :: l =>
    if pattern.isPrefixOf (a :: l) then some 0 else (firstIndex pattern l).map (· + 1)

/-- The number of places, where those that begin inside of another do not count. The second
argument is how many elements of the last place are still to come. -/
def countFrom (pattern : List α) : ℕ → List α → ℕ
  | _, [] => 0
  | skip + 1, _ :: l => countFrom pattern skip l
  | 0, a :: l =>
    if pattern.isPrefixOf (a :: l) then countFrom pattern (pattern.length - 1) l + 1
    else countFrom pattern 0 l

def occurrences (pattern l : List α) : ℕ := countFrom pattern 0 l

/-- The pieces of a list between the places of the pattern. -/
inductive Cuts (pattern : List α) : List α → List (List α) → Prop
  | last {l : List α} : firstIndex pattern l = none → Cuts pattern l [l]
  | next {l : List α} {i : ℕ} {pieces : List (List α)} : firstIndex pattern l = some i →
      Cuts pattern (l.drop (i + pattern.length)) pieces → Cuts pattern l (l.take i :: pieces)

variable {pattern l : List α} {i skip : ℕ} {pieces pieces' : List (List α)}

/-! ### The first place -/

section Lawful

variable [LawfulBEq α]

theorem firstIndex_eq_some_iff :
    firstIndex pattern l = some i ↔
      i ≤ l.length ∧ pattern <+: l.drop i ∧ ∀ j < i, ¬ pattern <+: l.drop j := by
  induction l generalizing i with
  | nil =>
    rw [firstIndex]
    split
    case isTrue hstarts =>
      rw [List.isPrefixOf_iff_prefix] at hstarts
      constructor
      · rintro ⟨⟩
        exact ⟨le_rfl, hstarts, fun j hj => absurd hj (Nat.not_lt_zero j)⟩
      · rintro ⟨hi, -, -⟩
        rw [Nat.le_zero.mp hi]
    case isFalse hstarts =>
      rw [List.isPrefixOf_iff_prefix] at hstarts
      simp [hstarts]
  | cons a l ih =>
    rw [firstIndex]
    split
    case isTrue hstarts =>
      rw [List.isPrefixOf_iff_prefix] at hstarts
      constructor
      · rintro ⟨⟩
        exact ⟨Nat.zero_le _, hstarts, fun j hj => absurd hj (Nat.not_lt_zero j)⟩
      · rintro ⟨-, -, hfirst⟩
        cases i with
        | zero => rfl
        | succ i => exact absurd hstarts (hfirst 0 (Nat.succ_pos i))
    case isFalse hstarts =>
      rw [List.isPrefixOf_iff_prefix] at hstarts
      cases i with
      | zero => simp [hstarts]
      | succ i =>
        rw [Option.map_eq_some_iff]
        simp only [Nat.add_right_cancel_iff, exists_eq_right, ih, List.length_cons,
          Nat.add_le_add_iff_right, List.drop_succ_cons]
        refine and_congr_right fun _ => and_congr_right fun _ => ?_
        constructor
        · intro hfirst j hj
          cases j with
          | zero => exact hstarts
          | succ j => exact hfirst j (Nat.lt_of_succ_lt_succ hj)
        · exact fun hfirst j hj => hfirst (j + 1) (Nat.succ_lt_succ hj)

theorem firstIndex_eq_none_iff : firstIndex pattern l = none ↔ ¬ pattern <:+: l := by
  induction l with
  | nil =>
    rw [firstIndex, List.infix_nil]
    split
    case isTrue hstarts => simp_all
    case isFalse hstarts => simp_all
  | cons a l ih =>
    rw [firstIndex, List.infix_cons_iff]
    split
    case isTrue hstarts => simp [List.isPrefixOf_iff_prefix.mp hstarts]
    case isFalse hstarts =>
      rw [List.isPrefixOf_iff_prefix] at hstarts
      simp [hstarts, ih]

/-- The list before its first place, the place, and the rest. -/
theorem eq_of_firstIndex (h : firstIndex pattern l = some i) :
    l = l.take i ++ pattern ++ l.drop (i + pattern.length) := by
  rw [firstIndex_eq_some_iff] at h
  obtain ⟨-, ⟨rest, hrest⟩, -⟩ := h
  have hdrop : l.drop (i + pattern.length) = rest := by
    rw [← List.drop_drop, ← hrest, List.drop_left]
  rw [hdrop, List.append_assoc, hrest, List.take_append_drop]

theorem le_length_of_firstIndex (h : firstIndex pattern l = some i) :
    i + pattern.length ≤ l.length := by
  rw [firstIndex_eq_some_iff] at h
  obtain ⟨hi, hstarts, -⟩ := h
  have := hstarts.length_le
  rw [List.length_drop] at this
  omega

/-- No place of the pattern is before the first one. -/
theorem not_infix_take (hpattern : pattern ≠ []) (h : firstIndex pattern l = some i) :
    ¬ pattern <:+: l.take i := by
  rw [firstIndex_eq_some_iff] at h
  obtain ⟨hi, -, hfirst⟩ := h
  rintro ⟨u, v, huv⟩
  have hlength := congrArg List.length huv
  have hpos := List.length_pos_iff.mpr hpattern
  rw [List.length_append, List.length_append, List.length_take] at hlength
  refine hfirst u.length (by omega) ⟨v ++ l.drop i, ?_⟩
  have heq : l = u ++ (pattern ++ (v ++ l.drop i)) := by
    rw [← List.append_assoc, ← List.append_assoc, huv, List.take_append_drop]
  conv_rhs => rw [heq]
  rw [List.drop_left]

/-- The first place is the same whatever comes behind it. -/
theorem firstIndex_append_congr {pre u v : List α} (h : firstIndex pattern (pre ++ u) = some i)
    (hi : i + pattern.length ≤ pre.length) : firstIndex pattern (pre ++ v) = some i := by
  rw [firstIndex_eq_some_iff] at h ⊢
  obtain ⟨-, hstarts, hfirst⟩ := h
  have hiff : ∀ j ≤ i, ∀ w : List α, pattern <+: (pre ++ w).drop j ↔ pattern <+: pre.drop j := by
    intro j hj w
    rw [List.drop_append_of_le_length (by omega)]
    constructor
    · intro hp
      refine List.prefix_of_prefix_length_le hp (List.prefix_append _ _) ?_
      rw [List.length_drop]
      omega
    · exact fun hp => hp.trans (List.prefix_append _ _)
  refine ⟨?_, ?_, fun j hj => ?_⟩
  · rw [List.length_append]
    omega
  · exact (hiff i le_rfl v).mpr ((hiff i le_rfl u).mp hstarts)
  · exact fun hp => hfirst j hj ((hiff j hj.le u).mpr ((hiff j hj.le v).mp hp))

/-- A part that lacks the first element of the pattern is passed over. -/
theorem firstIndex_append_of_notMem {a : α} {pre : List α} (ha : a ∉ pre) (l : List α) :
    firstIndex (a :: pattern) (pre ++ l) =
      (firstIndex (a :: pattern) l).map (pre.length + ·) := by
  induction pre with
  | nil => simp
  | cons b pre ih =>
    rw [List.mem_cons, not_or] at ha
    rw [List.cons_append, firstIndex, if_neg, ih ha.2, Option.map_map]
    · congr 1
      funext n
      simp only [Function.comp, List.length_cons]
      omega
    · rw [List.isPrefixOf_iff_prefix, List.cons_prefix_cons]
      exact fun h => ha.1 h.1

omit [BEq α] [LawfulBEq α] in
/-- What ends with an element that is not in the rest is found before the rest. -/
theorem infix_append_iff_of_notMem {a : α} {u front rest : List α} (ha : a ∉ rest) :
    u ++ [a] <:+: front ++ rest ↔ u ++ [a] <:+: front := by
  refine ⟨?_, fun h => h.trans (List.prefix_append _ _).isInfix⟩
  rintro ⟨s, t, h⟩
  rcases List.append_eq_append_iff.mp h with ⟨c, hfront, -⟩ | ⟨c, hleft, hrest⟩
  · exact ⟨s, c, hfront.symm⟩
  · -- the end of the pattern is not in the rest, so nothing of the pattern is
    rcases List.eq_nil_or_concat c with rfl | ⟨c, b, rfl⟩
    · exact ⟨s, [], by rw [hleft, List.append_nil, List.append_nil]⟩
    · rw [List.concat_eq_append, ← List.append_assoc, ← List.append_assoc] at hleft
      obtain ⟨-, hends⟩ := List.append_inj' hleft rfl
      obtain rfl := List.singleton_injective hends
      exact absurd (by rw [hrest]; simp) ha

omit [BEq α] [LawfulBEq α] in
/-- What starts with an element that is not in the front is found behind the front. -/
theorem infix_append_iff_of_head_notMem {a : α} {u front rest : List α} (ha : a ∉ front) :
    a :: u <:+: front ++ rest ↔ a :: u <:+: rest := by
  refine ⟨fun h => ?_, fun h => h.trans (List.suffix_append _ _).isInfix⟩
  induction front with
  | nil => exact h
  | cons b front ih =>
    rw [List.mem_cons, not_or] at ha
    rcases List.infix_cons_iff.mp h with hp | hi
    · exact absurd (List.cons_prefix_cons.mp hp).1 ha.1
    · exact ih ha.2 hi

/-- A longer pattern is not found before the one that it starts with. -/
theorem firstIndex_of_prefix {longer : List α} (hlonger : pattern <+: longer)
    (h : firstIndex pattern l = some i) :
    firstIndex longer l = (firstIndex longer (l.drop i)).map (i + ·) := by
  rw [firstIndex_eq_some_iff] at h
  obtain ⟨hi, -, hfirst⟩ := h
  have hbefore : ∀ j < i, ¬ longer <+: l.drop j := fun j hj hp => hfirst j hj (hlonger.trans hp)
  cases hrest : firstIndex longer (l.drop i) with
  | none =>
    rw [Option.map_none]
    cases hall : firstIndex longer l with
    | none => rfl
    | some k =>
      exfalso
      rw [firstIndex_eq_some_iff] at hall
      obtain ⟨hk, hstarts, -⟩ := hall
      have hik : i ≤ k := by
        by_contra hlt
        exact hbefore k (by omega) hstarts
      refine firstIndex_eq_none_iff.mp hrest ?_
      have hdrop : l.drop k = (l.drop i).drop (k - i) := by
        rw [List.drop_drop]
        congr 1
        omega
      rw [hdrop] at hstarts
      exact hstarts.isInfix.trans (List.drop_suffix _ _).isInfix
  | some k =>
    rw [firstIndex_eq_some_iff] at hrest
    obtain ⟨hk, hstarts, hfirst'⟩ := hrest
    rw [List.length_drop] at hk
    rw [List.drop_drop] at hstarts
    rw [Option.map_some, firstIndex_eq_some_iff]
    refine ⟨by omega, hstarts, fun j hj hp => ?_⟩
    rcases Nat.lt_or_ge j i with hlt | hge
    · exact hbefore j hlt hp
    · refine hfirst' (j - i) (by omega) ?_
      rwa [List.drop_drop, show i + (j - i) = j by omega]

end Lawful

/-! ### Pieces -/

theorem Cuts.unique (h : Cuts pattern l pieces) (h' : Cuts pattern l pieces') :
    pieces = pieces' := by
  induction h generalizing pieces' with
  | last hnone =>
    cases h' with
    | last => rfl
    | next hsome => simp [hnone] at hsome
  | next hsome _ ih =>
    cases h' with
    | last hnone => simp [hnone] at hsome
    | next hsome' hrest =>
      obtain rfl := Option.some.inj (hsome.symm.trans hsome')
      rw [ih hrest]

theorem Cuts.ne_nil (h : Cuts pattern l pieces) : pieces ≠ [] := by
  cases h <;> exact List.cons_ne_nil _ _

section Lawful

variable [LawfulBEq α]

theorem exists_cuts (hpattern : pattern ≠ []) (l : List α) : ∃ pieces, Cuts pattern l pieces := by
  induction hn : l.length using Nat.strongRecOn generalizing l with
  | ind n ih =>
    cases hfirst : firstIndex pattern l with
    | none => exact ⟨_, .last hfirst⟩
    | some i =>
      have hlength := le_length_of_firstIndex hfirst
      have hpos := List.length_pos_iff.mpr hpattern
      obtain ⟨pieces, hpieces⟩ := ih (l.drop (i + pattern.length)).length
        (by rw [List.length_drop]; omega) _ rfl
      exact ⟨_, .next hfirst hpieces⟩

/-- With the pattern between them, the pieces are the list. -/
theorem Cuts.intercalate (h : Cuts pattern l pieces) : pattern.intercalate pieces = l := by
  induction h with
  | last => exact List.intercalate_singleton
  | next hfirst hrest ih =>
    rw [List.intercalate_cons_of_ne_nil hrest.ne_nil, ih]
    exact (eq_of_firstIndex hfirst).symm

theorem Cuts.not_infix (hpattern : pattern ≠ []) (h : Cuts pattern l pieces) :
    ∀ piece ∈ pieces, ¬ pattern <:+: piece := by
  induction h with
  | last hnone =>
    intro piece hpiece
    rw [List.mem_singleton.mp hpiece]
    exact firstIndex_eq_none_iff.mp hnone
  | next hfirst _ ih =>
    exact List.forall_mem_cons.mpr ⟨not_infix_take hpattern hfirst, ih⟩

/-! ### The number of places -/

omit [LawfulBEq α] in
theorem countFrom_skip (hskip : skip ≤ l.length) :
    countFrom pattern skip l = occurrences pattern (l.drop skip) := by
  induction l generalizing skip with
  | nil =>
    obtain rfl := Nat.le_zero.mp hskip
    rfl
  | cons a l ih =>
    cases skip with
    | zero => rfl
    | succ skip => exact ih (Nat.le_of_succ_le_succ hskip)

omit [LawfulBEq α] in
theorem occurrences_of_none (h : firstIndex pattern l = none) : occurrences pattern l = 0 := by
  induction l with
  | nil => rfl
  | cons a l ih =>
    rw [firstIndex] at h
    split at h
    · cases h
    case isFalse hstarts =>
      rw [occurrences, countFrom, if_neg hstarts]
      exact ih (Option.map_eq_none_iff.mp h)

theorem occurrences_of_some (hpattern : pattern ≠ []) (h : firstIndex pattern l = some i) :
    occurrences pattern l = occurrences pattern (l.drop (i + pattern.length)) + 1 := by
  have hlength := le_length_of_firstIndex h
  have hpos := List.length_pos_iff.mpr hpattern
  induction l generalizing i with
  | nil =>
    rw [List.length_nil] at hlength
    omega
  | cons a l ih =>
    rw [firstIndex] at h
    rw [List.length_cons] at hlength
    split at h
    case isTrue hstarts =>
      cases h
      rw [occurrences, countFrom, if_pos hstarts, countFrom_skip (by omega), Nat.zero_add]
      obtain ⟨n, hn⟩ : ∃ n, pattern.length = n + 1 := ⟨pattern.length - 1, by omega⟩
      rw [hn, List.drop_succ_cons, Nat.add_sub_cancel]
    case isFalse hstarts =>
      obtain ⟨j, hj, rfl⟩ := Option.map_eq_some_iff.mp h
      rw [occurrences, countFrom, if_neg hstarts, Nat.add_right_comm, List.drop_succ_cons]
      exact ih hj (by omega)

theorem Cuts.length (hpattern : pattern ≠ []) (h : Cuts pattern l pieces) :
    pieces.length = occurrences pattern l + 1 := by
  induction h with
  | last hnone => rw [occurrences_of_none hnone, List.length_singleton]
  | next hfirst _ ih => rw [occurrences_of_some hpattern hfirst, List.length_cons, ih]

end Lawful

end Fluffi.Systems.Occurrences
