import Mathlib.Data.List.Pairwise
import Mathlib.Data.List.Nodup
import Fluffi.CaRRoT.FoundStrings
import Fluffi.CaRRoT.ByteOrderMarks

/-! The windows of a file that are scanned for integers: those of two, four or eight bytes that
are outside of the strings. The bound of the loop is a difference of unsigned numbers. -/

namespace Fluffi.CaRRoT

open Fluffi.Systems Fluffi.Shared

/-! ### Windows -/

/-- Sets the entries of one string; `none` is an index out of range. -/
def markString (instring : List Bool) (el : Text) : Option (List Bool) :=
  (List.range' el.pos el.len).foldlM
    (fun t i => if i < t.length then some (t.set i true) else none) instring

def instringOf (size : ℕ) (strings : List Text) : Option (List Bool) :=
  strings.foldlM markString (List.replicate size false)

/-- The conjunction of `w` negated entries from `i` on. It stops at the first one that is set, and
an index out of range is a panic. -/
def outside (instring : List Bool) (i : ℕ) : ℕ → Option Bool
  | 0 => some true
  | w + 1 =>
    match instring[i]? with
    | none => none
    | some true => some false
    | some false => outside instring (i + 1) w

/-- The call of `checkInt` at a position, if there is one. The bound is computed in 64 bits. -/
def callAt (size : ℕ) (instring : List Bool) (i w : ℕ) : Option (List (ℕ × ℕ)) :=
  if i < sub64 size w then
    (outside instring i w).map fun free => if free then [(i, w)] else []
  else some []

def callsAt (size : ℕ) (instring : List Bool) : List (ℕ × ℕ) → Option (List (ℕ × ℕ))
  | [] => some []
  | (i, w) :: rest => do
    let call ← callAt size instring i w
    let calls ← callsAt size instring rest
    pure (call ++ calls)

/-- The positions of the loop, each with the three widths. -/
def candidates (size : ℕ) : List (ℕ × ℕ) :=
  (List.range size).flatMap fun i => [(i, 2), (i, 4), (i, 8)]

/-- The calls of `checkInt`, with their positions and widths. -/
def scanCalls (size : ℕ) (strings : List Text) : Option (List (ℕ × ℕ)) :=
  (instringOf size strings).bind fun instring => callsAt size instring (candidates size)

/-! ### The bytes of the strings -/

/-- A byte of a string. -/
def InString (strings : List Text) (i : ℕ) : Prop := ∃ t ∈ strings, t.pos ≤ i ∧ i < t.pos + t.len

instance (strings : List Text) : DecidablePred (InString strings) := fun i =>
  inferInstanceAs (Decidable (∃ t ∈ strings, t.pos ≤ i ∧ i < t.pos + t.len))

/-- The strings that were recognised in a file of this size: they are in it. -/
structure Recognised (size : ℕ) where
  strings : List Text
  inside : ∀ t ∈ strings, t.pos + t.len ≤ size

/-- What is left of the finds is recognised. -/
def Recognised.ofMinimized {strlim : ℕ} {contents : Bytes} {ar S : List Text}
    (har : Added strlim contents ar) (hS : minimizeStrings contents.length ar = some S) :
    Recognised contents.length :=
  ⟨S, fun _ ht => inside_of_minimizeStrings har hS ht⟩

section Marked

variable {size : ℕ} {strings : List Text}

theorem markString_eq {instring : List Bool} {el : Text} (h : el.pos + el.len ≤ instring.length) :
    ∃ table, markString instring el = some table ∧ table.length = instring.length ∧
      ∀ i, table[i]? =
        if el.pos ≤ i ∧ i < el.pos + el.len then some true else instring[i]? := by
  rw [markString]
  generalize el.pos = pos at h ⊢
  generalize el.len = len at h ⊢
  induction len generalizing pos instring with
  | zero => exact ⟨instring, rfl, rfl, fun i => by rw [if_neg (by omega)]⟩
  | succ len ih =>
    obtain ⟨table, htable, hlength, hentry⟩ := @ih (instring.set pos true)
      (pos + 1) (by rw [List.length_set]; omega)
    refine ⟨table, ?_, hlength.trans List.length_set, fun i => ?_⟩
    · rw [List.range'_succ, List.foldlM_cons, if_pos (by omega)]
      exact htable
    · rw [hentry, List.getElem?_set]
      by_cases hpos : pos = i
      · subst hpos
        rw [if_neg (by omega), if_pos rfl, if_pos (by omega), if_pos (by omega)]
      · rw [if_neg hpos]
        by_cases hi : pos + 1 ≤ i ∧ i < pos + 1 + len
        · rw [if_pos hi, if_pos (by omega)]
        · rw [if_neg hi, if_neg (by omega)]

/-- The table holds for each byte whether it is of a string. -/
theorem instringOf_eq (hinside : ∀ t ∈ strings, t.pos + t.len ≤ size) :
    ∃ instring, instringOf size strings = some instring ∧ instring.length = size ∧
      ∀ i < size, instring[i]? = some (decide (InString strings i)) := by
  induction strings using List.reverseRecOn with
  | nil =>
    refine ⟨List.replicate size false, rfl, List.length_replicate, fun i hi => ?_⟩
    rw [List.getElem?_replicate, if_pos hi]
    rfl
  | append_singleton strings el ih =>
    obtain ⟨instring, hinstring, hlength, hentry⟩ := ih
      fun t ht => hinside t (List.mem_append_left _ ht)
    obtain ⟨table, htable, hlength', hentry'⟩ := @markString_eq instring el
      (by rw [hlength]; exact hinside el (List.mem_append_right _ (List.mem_singleton_self el)))
    refine ⟨table, ?_, hlength'.trans hlength, fun i hi => ?_⟩
    · rw [instringOf, List.foldlM_append, ← instringOf, hinstring]
      simp [htable]
    · have hstring : InString (strings ++ [el]) i ↔
          el.pos ≤ i ∧ i < el.pos + el.len ∨ InString strings i := by
        simp only [InString, List.mem_append, List.mem_singleton, or_and_right, exists_or,
          exists_eq_left]
        exact or_comm
      rw [hentry', hentry i hi]
      by_cases hel : el.pos ≤ i ∧ i < el.pos + el.len
      · rw [if_pos hel, decide_eq_true (hstring.mpr (.inl hel))]
      · rw [if_neg hel]
        congr 1
        rw [decide_eq_decide, hstring, or_iff_right hel]

end Marked

/-! ### The calls -/

section Calls

variable {size : ℕ} {strings : List Text} {instring : List Bool} {i w : ℕ}

/-- The window contains no byte of a string. -/
def Free (strings : List Text) (i w : ℕ) : Prop := ∀ j < w, ¬InString strings (i + j)

instance (strings : List Text) (i w : ℕ) : Decidable (Free strings i w) :=
  inferInstanceAs (Decidable (∀ j < w, ¬InString strings (i + j)))

/-- The table that `instringOf` makes. -/
def Marks (size : ℕ) (strings : List Text) (instring : List Bool) : Prop :=
  instring.length = size ∧ ∀ i < size, instring[i]? = some (decide (InString strings i))

/-- A window that is cut off by the end of the file is a panic, unless a string stops the
evaluation before. -/
theorem outside_eq (h : Marks size strings instring) (hi : i ≤ size) :
    outside instring i w =
      if ¬Free strings i (min w (size - i)) then some false
      else if i + w ≤ size then some true else none := by
  induction w generalizing i with
  | zero =>
    have hfree : Free strings i (min 0 (size - i)) := by
      intro j hj
      omega
    rw [outside, if_neg (not_not.mpr hfree), if_pos (by omega)]
  | succ w ih =>
    rw [outside]
    rcases hi.lt_or_eq with hlt | rfl
    · rw [h.2 i hlt]
      by_cases hstring : InString strings i
      · rw [decide_eq_true hstring, if_pos]
        exact fun hfree => hfree 0 (by omega) hstring
      · have hiff : Free strings i (min (w + 1) (size - i)) ↔
            Free strings (i + 1) (min w (size - (i + 1))) := by
          constructor
          · intro hfree j hj
            have hnot := hfree (j + 1) (by omega)
            rwa [show i + (j + 1) = i + 1 + j by omega] at hnot
          · intro hfree j hj
            cases j with
            | zero => exact hstring
            | succ j =>
              have hnot := hfree j (by omega)
              rwa [show i + 1 + j = i + (j + 1) by omega] at hnot
        rw [decide_eq_false hstring]
        change outside instring (i + 1) w = _
        rw [ih hlt, show i + 1 + w = i + (w + 1) by omega]
        simp only [hiff]
    · have hfree : Free strings i (min (w + 1) (i - i)) := by
        intro j hj
        omega
      rw [List.getElem?_eq_none (by rw [h.1]), if_neg (not_not.mpr hfree), if_neg (by omega)]

/-- The window fits, with a byte behind it. -/
def Called (size : ℕ) (strings : List Text) (x : ℕ × ℕ) : Prop :=
  x.1 + x.2 < size ∧ Free strings x.1 x.2

instance (size : ℕ) (strings : List Text) : DecidablePred (Called size strings) := fun x =>
  inferInstanceAs (Decidable (x.1 + x.2 < size ∧ Free strings x.1 x.2))

/-- The evaluation of the window stays in the file. -/
def Stays (size : ℕ) (strings : List Text) (x : ℕ × ℕ) : Prop :=
  x.2 ≤ size ∨ ¬Free strings x.1 (size - x.1)

/-- In a file that is shorter than the width the bound has wrapped around. -/
theorem lt_sub64_iff (hi : i < size) (hw : w ≤ 8) : i < sub64 size w ↔ i + w < size ∨ size < w := by
  rw [sub64]
  split <;> omega

theorem callAt_eq (h : Marks size strings instring) (hi : i < size) (hw : w ≤ 8)
    (hstays : Stays size strings (i, w)) :
    callAt size instring i w = some (if Called size strings (i, w) then [(i, w)] else []) := by
  rw [callAt]
  by_cases hbound : i + w < size ∨ size < w
  · rw [if_pos ((lt_sub64_iff hi hw).mpr hbound), outside_eq h hi.le]
    rcases hbound with hlt | hlt
    · have hmin : min w (size - i) = w := by omega
      rw [hmin, if_pos (show i + w ≤ size by omega)]
      by_cases hfree : Free strings i w
      · rw [if_neg (not_not.mpr hfree), if_pos (show Called size strings (i, w) from ⟨hlt, hfree⟩)]
        rfl
      · rw [if_pos hfree, if_neg fun hcalled => hfree hcalled.2]
        rfl
    · have hmin : min w (size - i) = size - i := by omega
      have hnot : ¬Free strings i (size - i) := hstays.resolve_left (Nat.not_le.mpr hlt)
      rw [hmin, if_pos hnot, if_neg fun hcalled => by have := hcalled.1; omega]
      rfl
  · rw [if_neg fun hlt => hbound ((lt_sub64_iff hi hw).mp hlt),
      if_neg fun hcalled => hbound (.inl hcalled.1)]

theorem callAt_eq_none (h : Marks size strings instring) (hi : i < size) (hw : w ≤ 8)
    (hstays : ¬Stays size strings (i, w)) : callAt size instring i w = none := by
  rw [Stays, not_or, not_not, Nat.not_le] at hstays
  have hmin : min w (size - i) = size - i := by omega
  rw [callAt, if_pos ((lt_sub64_iff hi hw).mpr (.inr hstays.1)), outside_eq h hi.le, hmin,
    if_neg (not_not.mpr hstays.2), if_neg (by omega), Option.map_none]

theorem mem_candidates {x : ℕ × ℕ} :
    x ∈ candidates size ↔ x.1 < size ∧ (x.2 = 2 ∨ x.2 = 4 ∨ x.2 = 8) := by
  rw [candidates, List.mem_flatMap]
  constructor
  · rintro ⟨i, hi, hx⟩
    rw [List.mem_range] at hi
    simp only [List.mem_cons, List.not_mem_nil, or_false] at hx
    rcases hx with rfl | rfl | rfl
    · exact ⟨hi, .inl rfl⟩
    · exact ⟨hi, .inr (.inl rfl)⟩
    · exact ⟨hi, .inr (.inr rfl)⟩
  · obtain ⟨i, w⟩ := x
    rintro ⟨hi, hw⟩
    refine ⟨i, List.mem_range.mpr hi, ?_⟩
    simp only at hw
    rcases hw with rfl | rfl | rfl <;> simp

theorem nodup_candidates (size : ℕ) : (candidates size).Nodup := by
  rw [candidates, List.nodup_flatMap]
  refine ⟨fun i _ => by simp, List.nodup_range.imp ?_⟩
  intro i j hij x hx hx'
  have hxi : x.1 = i := by
    simp only [List.mem_cons, List.not_mem_nil, or_false] at hx
    rcases hx with rfl | rfl | rfl <;> rfl
  have hxj : x.1 = j := by
    simp only [List.mem_cons, List.not_mem_nil, or_false] at hx'
    rcases hx' with rfl | rfl | rfl <;> rfl
  exact hij (hxi.symm.trans hxj)

theorem callsAt_eq (h : Marks size strings instring) {l : List (ℕ × ℕ)}
    (hl : ∀ x ∈ l, x ∈ candidates size) (hstays : ∀ x ∈ l, Stays size strings x) :
    callsAt size instring l = some (l.filter fun x => Called size strings x) := by
  induction l with
  | nil => rfl
  | cons x l ih =>
    have hx := mem_candidates.mp (hl x (List.mem_cons_self ..))
    have hcall := callAt_eq h hx.1 (by omega) (hstays x (List.mem_cons_self ..))
    have hcalls := ih (fun y hy => hl y (List.mem_cons_of_mem _ hy))
      fun y hy => hstays y (List.mem_cons_of_mem _ hy)
    rw [callsAt, hcall, hcalls]
    by_cases hcalled : Called size strings x
    · rw [if_pos hcalled, List.filter_cons_of_pos (by simpa using hcalled)]
      rfl
    · rw [if_neg hcalled, List.filter_cons_of_neg (by simpa using hcalled)]
      rfl

theorem callsAt_eq_none (h : Marks size strings instring) {l : List (ℕ × ℕ)}
    (hl : ∀ x ∈ l, x ∈ candidates size) {x : ℕ × ℕ} (hx : x ∈ l)
    (hstays : ¬Stays size strings x) : callsAt size instring l = none := by
  induction l with
  | nil => cases hx
  | cons y l ih =>
    rw [callsAt]
    rcases List.mem_cons.mp hx with rfl | hmem
    · have hx' := mem_candidates.mp (hl x hx)
      rw [callAt_eq_none h hx'.1 (by omega) hstays]
      rfl
    · rw [ih (fun y hy => hl y (List.mem_cons_of_mem _ hy)) hmem]
      cases callAt size instring y.1 y.2 <;> rfl

/-- No evaluation leaves the file: its size is at least the largest width, or its last byte is of
a string. -/
def AllStay (size : ℕ) (strings : List Text) : Prop :=
  8 ≤ size ∨ size = 0 ∨ InString strings (size - 1)

theorem allStay_iff : AllStay size strings ↔ ∀ x ∈ candidates size, Stays size strings x := by
  constructor
  · intro h x hx
    obtain ⟨hi, hw⟩ := mem_candidates.mp hx
    rcases h with h | h | h
    · exact .inl (by omega)
    · omega
    · refine .inr fun hfree => hfree (size - 1 - x.1) (by omega) ?_
      rwa [show x.1 + (size - 1 - x.1) = size - 1 by omega]
  · intro h
    by_contra hnot
    rw [AllStay, not_or, not_or] at hnot
    obtain ⟨hsize, hpos, hstring⟩ := hnot
    have hlast := h (size - 1, 8) (mem_candidates.mpr ⟨by simp only; omega, by simp⟩)
    rcases hlast with hle | hfree
    · exact hsize hle
    · refine hfree fun j hj => ?_
      simp only at hj ⊢
      rwa [show size - 1 + j = size - 1 by omega]

theorem scanCalls_eq (strings : Recognised size) (h : AllStay size strings.strings) :
    scanCalls size strings.strings =
      some ((candidates size).filter fun x => Called size strings.strings x) := by
  obtain ⟨instring, hinstring, hmarks⟩ := instringOf_eq strings.inside
  rw [scanCalls, hinstring, Option.bind_some]
  exact callsAt_eq hmarks (fun x hx => hx) (allStay_iff.mp h)

theorem scanCalls_eq_none (strings : Recognised size) (h : ¬AllStay size strings.strings) :
    scanCalls size strings.strings = none := by
  obtain ⟨instring, hinstring, hmarks⟩ := instringOf_eq strings.inside
  rw [allStay_iff] at h
  push Not at h
  obtain ⟨x, hx, hstays⟩ := h
  rw [scanCalls, hinstring, Option.bind_some]
  exact callsAt_eq_none hmarks (fun x hx => hx) hx hstays

/-- What is passed to `checkInt` is inside the file, and outside of the strings. -/
theorem mem_calls (strings : Recognised size) {calls : List (ℕ × ℕ)}
    (h : scanCalls size strings.strings = some calls) {x : ℕ × ℕ} :
    x ∈ calls ↔ (x.2 = 2 ∨ x.2 = 4 ∨ x.2 = 8) ∧ Called size strings.strings x := by
  have hstay : AllStay size strings.strings := by
    by_contra hnot
    rw [scanCalls_eq_none strings hnot] at h
    cases h
  rw [scanCalls_eq strings hstay, Option.some.injEq] at h
  rw [← h, List.mem_filter, mem_candidates, decide_eq_true_iff]
  constructor
  · exact fun hx => ⟨hx.1.2, hx.2⟩
  · exact fun hx => ⟨⟨by have := hx.2.1; omega, hx.1⟩, hx.2⟩

end Calls

end Fluffi.CaRRoT
