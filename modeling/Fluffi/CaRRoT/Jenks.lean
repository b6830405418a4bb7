import Fluffi.Systems.Ranges
import Fluffi.Systems.Slices

/-! Clustering into natural breaks. The elements are split into groups of one size, and elements at
the end of a group move to the neighbour as long as they fit better there. What the medians are and
how the deviations compare is left open. -/

namespace Fluffi.CaRRoT

open Fluffi.Systems.Ranges Fluffi.Systems.Slices

/-- Where deviations are compared: for the element of a group that has no other, or for the first or
last of a larger one. -/
inductive Side where
  | single
  | low
  | high

/-- The medians of groups, and whether an element deviates less from the first median than from the
second, in the comparison that a round makes for a group. -/
structure Deviations (α F : Type*) where
  median : List α → F
  less : ℕ → ℕ → Side → α → F → F → Bool

/-- What a round over the groups has done. -/
structure Round where
  splits : List (ℤ × ℤ)
  wastouched : ℤ
  touched : ℕ → Option ℕ
  set : List ℕ

variable {α F : Type*}

/-- `data[k]`. -/
def elementAt (data : List α) (k : ℤ) : Option α := if 0 ≤ k then data[k.toNat]? else none

/-- `data[lo:hi]`. -/
def elements (data : List α) (r : ℤ × ℤ) : Option (List α) :=
  if 0 ≤ r.1 ∧ 0 ≤ r.2 then slice data r.1.toNat r.2.toNat else none

/-- The split at `i` is changed. -/
def change (splits : List (ℤ × ℤ)) (i : ℕ) (f : ℤ × ℤ → ℤ × ℤ) : Option (List (ℤ × ℤ)) :=
  (splits[i]?).map fun r => splits.set i (f r)

/-- The index of the last group before `i` that has elements. -/
def getNextLowerNonEmpty (splits : List (ℤ × ℤ)) : ℕ → Option (Option ℕ)
  | 0 => some none
  | i + 1 =>
    (splits[i]?).bind fun r =>
      if r.2 - r.1 > 0 then some (some i) else getNextLowerNonEmpty splits i

/-- The index of the first group that has elements, from `i` on. -/
def firstNonEmpty : List (ℤ × ℤ) → ℕ → Option ℕ
  | [], _ => none
  | r :: rs, i => if r.2 - r.1 > 0 then some i else firstNonEmpty rs (i + 1)

def getNextHigherNonEmpty (splits : List (ℤ × ℤ)) (i : ℕ) : Option ℕ :=
  firstNonEmpty (splits.drop (i + 1)) (i + 1)

/-- An element that goes back to the group that it came from counts against the moves. -/
def Round.touch (s : Round) (i n : ℕ) : Round :=
  let touched := Function.update s.touched n (some i)
  { s with
    touched := touched
    set := (s.set.insert n).insert i
    wastouched := if touched i = some n then s.wastouched - 1 else s.wastouched + 1 }

/-- The first element of group `i` goes to the lower group `n`. -/
def moveDown (i n : ℕ) (s : Round) : Option Round :=
  (change s.splits i fun r => (r.1 + 1, r.2)).bind fun splits =>
    (change splits n fun r => (r.1, r.2 + 1)).map fun splits =>
      { s.touch i n with splits := splits }

/-- The last element of group `i` goes to the higher group `n`. -/
def moveUp (i n : ℕ) (s : Round) : Option Round :=
  (change s.splits i fun r => (r.1, r.2 - 1)).bind fun splits =>
    (change splits n fun r => (r.1 - 1, r.2)).map fun splits =>
      { s.touch i n with splits := splits }

section Source

variable (dev : Deviations α F) (data : List α) (maxgroups cnt : ℕ) (medians : List F)

/-- Whether the element at `k` is closer to the median of group `n` than to that of group `m`. -/
def closer (side : Side) (i : ℕ) (k : ℤ) (n m : ℕ) : Option Bool :=
  (medians[n]?).bind fun mn => (elementAt data k).bind fun elm => (medians[m]?).map fun mm =>
    dev.less cnt i side elm mn mm

/-- A group with one element gives it to a neighbour, unless it is the first or the last. -/
def visitSingle (i : ℕ) (s : Round) : Option Round :=
  (s.splits[i]?).bind fun r =>
    (getNextLowerNonEmpty s.splits i).bind fun lo =>
      if 0 < i ∧ i < maxgroups - 1 then
        match lo, getNextHigherNonEmpty s.splits i with
        | some lo, some hi =>
          (closer dev data cnt medians .single i r.1 hi lo).bind fun up =>
            if up then moveUp i hi s else moveDown i lo s
        | some lo, none => moveDown i lo s
        | none, some hi => moveUp i hi s
        | none, none => some s
      else some s

def visitLow (i : ℕ) (s : Round) : Option Round :=
  if 0 < i then
    (s.splits[i]?).bind fun r =>
      (getNextLowerNonEmpty s.splits i).bind fun n =>
        n.bind fun n =>
          (closer dev data cnt medians .low i r.1 n i).bind fun down =>
            if down then moveDown i n s else some s
  else some s

/-- The element that is compared is the one behind the group. -/
def visitHigh (i : ℕ) (s : Round) : Option Round :=
  if i < maxgroups - 1 then
    (s.splits[i]?).bind fun r =>
      (getNextHigherNonEmpty s.splits i).bind fun n =>
        (closer dev data cnt medians .high i r.2 n i).bind fun up =>
          if up then moveUp i n s else some s
  else some s

/-- Group `i` in a round. A group of negative size ends the program. -/
def visit (s : Round) (i : ℕ) : Option Round :=
  (s.splits[i]?).bind fun r =>
    if r.2 - r.1 = 0 then some s
    else if r.2 - r.1 = 1 then visitSingle dev data maxgroups cnt medians i s
    else if r.2 - r.1 < 0 then none
    else (visitLow dev data cnt medians i s).bind (visitHigh dev data maxgroups cnt medians i)

def redoMedians (splits : List (ℤ × ℤ)) : List ℕ → List F → Option (List F)
  | [], medians => some medians
  | i :: elms, medians =>
    (splits[i]?).bind fun r => (elements data r).bind fun group =>
      if i < medians.length then redoMedians splits elms (medians.set i (dev.median group))
      else none

/-- The rounds that are left, from round `cnt` on. -/
def rounds : ℕ → ℕ → List (ℤ × ℤ) → List F → Option (List (ℤ × ℤ))
  | 0, _, splits, _ => some splits
  | left + 1, cnt, splits, medians =>
    ((List.range maxgroups).foldlM (visit dev data maxgroups cnt medians)
      ⟨splits, 0, fun _ => none, []⟩).bind fun s =>
        (redoMedians dev data s.splits s.set medians).bind fun medians =>
          if s.wastouched = 0 then some s.splits else rounds left (cnt + 1) s.splits medians

/-- The split of the elements before the first round. -/
def evenSplits (n : ℕ) : List (ℤ × ℤ) :=
  (List.range maxgroups).map fun i =>
    (((i * (n / maxgroups) : ℕ) : ℤ), (((i + 1) * (n / maxgroups) : ℕ) : ℤ))

/-- `JenksGroup`. -/
def jenksGroup : Option (List (ℤ × ℤ)) :=
  if maxgroups = 0 then none
  else
    ((evenSplits maxgroups data.length).mapM fun r => (elements data r).map dev.median).bind
      fun medians =>
        (rounds dev data maxgroups (data.length * data.length) 0
          (evenSplits maxgroups data.length) medians).map fun splits =>
            splits.filter fun r => r.1 ≠ r.2

end Source

end Fluffi.CaRRoT
