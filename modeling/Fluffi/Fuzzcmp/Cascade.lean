import Mathlib.Data.UInt
import Mathlib.Order.Basic

/-! What the generated comparison functions share. A generator prints 31 copies of a
function, each in a left and a right version that differ only in a marker. A copy
compares ten bytes with a `switch` of one case for each value and the rest with a loop,
and the wrapper picks the two versions by the caller and joins their results bit by bit.
A pointer is the list of the bytes that can be read from it on, and a read behind them
ends the call without a result. -/

namespace Fluffi.Fuzzcmp

abbrev Pointer := List UInt8

inductive Side where
  | left
  | right
  deriving DecidableEq, Repr

/-- The returned `int` and what `lastUsed…Func` holds afterwards. -/
structure Call where
  result : Int32
  lastUsedFunc : Int32
  deriving DecidableEq, Repr

def maxdetailedSteps : ℕ := 10

/-- The number of copies of each function. -/
def copies : ℕ := 31

def lastUsedMarker (k : ℕ) (lr : Side) : Int32 :=
  Int32.ofNat (k + if lr = .left then 0 else copies)

/-- A `switch` over `c1` in which the case of each label goes on if `c2` is that label. -/
def switchGoesOn {α : Type} [BEq α] (labels : List α) (c1 c2 : α) : Bool :=
  match labels.find? (· == c1) with
  | some label => c2 == label
  | none => false

/-- The cases `-128` to `127` without `0`. -/
def charLabels : List Int8 :=
  ((List.range 256).map fun i : ℕ => Int8.ofInt ((i : ℤ) - 128)).filter (· != 0)

/-- The cases `0` to `255`. -/
def byteLabels : List UInt8 := (List.range 256).map UInt8.ofNat

/-- The blocks `char0:` to `char9:`, then the loop behind them. `done j` is the test
of the remaining length in front of block `j`. -/
def detailedSteps (done : ℕ → Bool) (goesOn : UInt8 → UInt8 → Bool)
    (noMatch : UInt8 → UInt8 → Int32) (loop : Pointer → Pointer → Option Int32)
    (ptr1 ptr2 : Pointer) : List ℕ → Option Int32
  | [] => loop (ptr1.drop maxdetailedSteps) (ptr2.drop maxdetailedSteps)
  | j :: js =>
    if done j then some 0
    else do
      let c1 ← ptr1[j]?
      let c2 ← ptr2[j]?
      if goesOn c1 c2 then detailedSteps done goesOn noMatch loop ptr1 ptr2 js
      else some (noMatch c1 c2)

/-- The table of one version of all copies, from which the wrapper picks by the caller. -/
def table {β : Type} (copy : ℕ → β) : List β := (List.range copies).map copy

/-- The two results are joined, and the right version was the last one. -/
def joinMatches (leftmatch rightmatch : Call) : Call :=
  ⟨leftmatch.result ||| rightmatch.result, rightmatch.lastUsedFunc⟩

/-! ### The switch -/

theorem switchGoesOn_of_mem {α : Type} [BEq α] [LawfulBEq α] {labels : List α} {c1 : α}
    (hc : c1 ∈ labels) (c2 : α) : switchGoesOn labels c1 c2 = (c2 == c1) := by
  have hfind : labels.find? (· == c1) = some c1 := by
    cases hf : labels.find? (· == c1) with
    | none => exact absurd (List.find?_eq_none.mp hf c1 hc) (by simp)
    | some label =>
      have : label = c1 := by simpa using List.find?_some hf
      rw [this]
  rw [switchGoesOn, hfind]

theorem mem_byteLabels (c : UInt8) : c ∈ byteLabels :=
  List.mem_map.mpr ⟨c.toNat, List.mem_range.mpr c.toNat_lt, UInt8.ofNat_toNat⟩

theorem mem_charLabels {c : Int8} (hc : c ≠ 0) : c ∈ charLabels := by
  have hlo := c.le_toInt
  have hhi := c.toInt_lt
  refine List.mem_filter.mpr ⟨List.mem_map.mpr ⟨(c.toInt + 128).toNat, ?_, ?_⟩, by simpa⟩
  · rw [List.mem_range]
    omega
  · have : ((c.toInt + 128).toNat : ℤ) - 128 = c.toInt := by omega
    rw [this, Int8.ofInt_toInt]

theorem zero_notMem_charLabels : (0 : Int8) ∉ charLabels := by simp [charLabels]

theorem switchGoesOn_byteLabels (c1 c2 : UInt8) :
    switchGoesOn byteLabels c1 c2 = (c2 == c1) :=
  switchGoesOn_of_mem (mem_byteLabels c1) c2

/-- Case `0` and a value without a case both end in the block's `NoMatch`. -/
theorem switchGoesOn_charLabels (c1 c2 : Int8) :
    switchGoesOn charLabels c1 c2 = (c1 != 0 && c2 == c1) := by
  by_cases hc : c1 = 0
  · have hfind : charLabels.find? (· == c1) = none := by
      rw [List.find?_eq_none]
      intro label hlabel hlc
      obtain rfl : label = c1 := by simpa using hlc
      exact zero_notMem_charLabels (hc ▸ hlabel)
    rw [switchGoesOn, hfind]
    simp [hc]
  · rw [switchGoesOn_of_mem (mem_charLabels hc)]
    simp [hc]

/-! ### The detailed steps -/

section

variable (done : ℕ → Bool) (goesOn : UInt8 → UInt8 → Bool) (noMatch : UInt8 → UInt8 → Int32)
  (loop : Pointer → Pointer → Option Int32)

theorem detailedSteps_append_induct {P : ℕ → Pointer → Pointer → Option Int32 → Prop}
    (hloop : ∀ a b, P maxdetailedSteps a b (loop a b))
    (hdone : ∀ {j a b}, done j = true → P j a b (some 0))
    (hnone : ∀ {j a b}, done j = false → a = [] ∨ b = [] → P j a b none)
    (hnext : ∀ {j c1 c2 a b r}, done j = false → goesOn c1 c2 = true →
      P (j + 1) a b r → P j (c1 :: a) (c2 :: b) r)
    (hstop : ∀ {j c1 c2 a b}, done j = false → goesOn c1 c2 = false →
      P j (c1 :: a) (c2 :: b) (some (noMatch c1 c2)))
    (m : ℕ) {p q : Pointer} (hp : p.length + m = maxdetailedSteps) (hq : q.length = p.length)
    (a b : Pointer) :
    P p.length a b (detailedSteps done goesOn noMatch loop (p ++ a) (q ++ b)
      (List.range' p.length m)) := by
  induction m generalizing p q a b with
  | zero =>
    rw [Nat.add_zero] at hp
    rw [List.range'_zero, detailedSteps, ← hp, List.drop_left, hp, ← hq.trans hp, List.drop_left,
      hq.trans hp]
    exact hloop a b
  | succ m ih =>
    rw [List.range'_succ, detailedSteps]
    cases hd : done p.length with
    | true =>
      rw [if_pos rfl]
      exact hdone hd
    | false =>
      rw [if_neg (by decide), List.getElem?_append_right le_rfl, Nat.sub_self,
        List.getElem?_append_right (Nat.le_of_eq hq), hq, Nat.sub_self]
      cases a with
      | nil => exact hnone hd (.inl rfl)
      | cons c1 a =>
        cases b with
        | nil => exact hnone hd (.inr rfl)
        | cons c2 b =>
          have hnextRun := ih (p := p ++ [c1]) (q := q ++ [c2]) (by simp; omega)
            (by simp [hq]) a b
          simp only [List.length_append, List.length_singleton, List.append_assoc,
            List.singleton_append] at hnextRun
          simp only [List.getElem?_cons_zero, Option.bind_eq_bind, Option.bind_some]
          cases hg : goesOn c1 c2 with
          | true =>
            rw [if_pos rfl]
            exact hnext hd hg hnextRun
          | false =>
            rw [if_neg (by decide)]
            exact hstop hd hg

/-- The rule for the blocks and the loop behind them: what holds of the loop, of the early
returns and from one block to the next holds of the whole function. -/
theorem detailedSteps_induct {P : ℕ → Pointer → Pointer → Option Int32 → Prop}
    (hloop : ∀ a b, P maxdetailedSteps a b (loop a b))
    (hdone : ∀ {j a b}, done j = true → P j a b (some 0))
    (hnone : ∀ {j a b}, done j = false → a = [] ∨ b = [] → P j a b none)
    (hnext : ∀ {j c1 c2 a b r}, done j = false → goesOn c1 c2 = true →
      P (j + 1) a b r → P j (c1 :: a) (c2 :: b) r)
    (hstop : ∀ {j c1 c2 a b}, done j = false → goesOn c1 c2 = false →
      P j (c1 :: a) (c2 :: b) (some (noMatch c1 c2))) (ptr1 ptr2 : Pointer) :
    P 0 ptr1 ptr2 (detailedSteps done goesOn noMatch loop ptr1 ptr2
      (List.range maxdetailedSteps)) := by
  rw [List.range_eq_range']
  exact detailedSteps_append_induct done goesOn noMatch loop (p := []) (q := []) hloop hdone
    hnone hnext hstop maxdetailedSteps rfl rfl ptr1 ptr2

variable {goesOn noMatch loop} in
/-- With exchanged arguments the same blocks are run, so the result is the negated one. -/
theorem detailedSteps_swap (hgoesOn : ∀ c1 c2, goesOn c2 c1 = goesOn c1 c2)
    (hnoMatch : ∀ c1 c2, noMatch c2 c1 = -noMatch c1 c2)
    (hloop : ∀ a b, loop b a = (loop a b).map (-·)) (ptr1 ptr2 : Pointer) (js : List ℕ) :
    detailedSteps done goesOn noMatch loop ptr2 ptr1 js =
      (detailedSteps done goesOn noMatch loop ptr1 ptr2 js).map (-·) := by
  induction js with
  | nil => exact hloop _ _
  | cons j js ih =>
    rw [detailedSteps, detailedSteps]
    by_cases hd : done j = true
    · simp [hd]
    · rw [if_neg hd, if_neg hd]
      cases h1 : ptr1[j]? with
      | none => cases ptr2[j]? <;> rfl
      | some c1 =>
        cases h2 : ptr2[j]? with
        | none => rfl
        | some c2 =>
          simp only [Option.bind_eq_bind, Option.bind_some, hgoesOn c1 c2, ih, hnoMatch c1 c2]
          by_cases hg : goesOn c1 c2 = true
          · rw [if_pos hg, if_pos hg]
          · rw [if_neg hg, if_neg hg, Option.map_some]

end

/-! ### The remaining length -/

theorem exists_pred {n : UInt64} (hn : n ≠ 0) : ∃ m, n.toNat = m + 1 ∧ (n - 1).toNat = m := by
  have hpos : n.toNat ≠ 0 := fun h => hn (UInt64.toNat_inj.mp h)
  refine ⟨n.toNat - 1, by omega, UInt64.toNat_sub_of_le _ _ ?_⟩
  rw [UInt64.le_iff_toNat_le]
  exact Nat.one_le_iff_ne_zero.mpr hpos

theorem beq_ofNat_iff {n : UInt64} {j : ℕ} (hj : j ≤ n.toNat) :
    (n == UInt64.ofNat j) = true ↔ n.toNat = j := by
  rw [beq_iff_eq, ← UInt64.toNat_inj, UInt64.toNat_ofNat_of_lt' (hj.trans_lt n.toNat_lt)]

theorem beq_ofNat_eq_false_iff {n : UInt64} {j : ℕ} (hj : j ≤ n.toNat) :
    (n == UInt64.ofNat j) = false ↔ n.toNat ≠ j := by
  rw [← Bool.not_eq_true, beq_ofNat_iff hj]

theorem toNat_sub_maxdetailedSteps {n : UInt64} (hn : maxdetailedSteps ≤ n.toNat) :
    (n - UInt64.ofNat maxdetailedSteps).toNat = n.toNat - maxdetailedSteps :=
  UInt64.toNat_sub_of_le n (UInt64.ofNat 10) (UInt64.le_iff_toNat_le.mpr hn)

/-! ### The reference -/

/-- What C's comparison functions return the sign of: the first two bytes that differ,
compared as unsigned numbers. -/
def firstDifference : List UInt8 → List UInt8 → Ordering
  | a :: as, b :: bs => if a = b then firstDifference as bs else compare a b
  | _, _ => .eq

@[simp] theorem firstDifference_cons_self (a : UInt8) (as bs : List UInt8) :
    firstDifference (a :: as) (a :: bs) = firstDifference as bs := by
  rw [firstDifference, if_pos rfl]

theorem firstDifference_cons_of_ne {a b : UInt8} (h : a ≠ b) (as bs : List UInt8) :
    firstDifference (a :: as) (b :: bs) = compare a b := by
  rw [firstDifference, if_neg h]

/-! ### The wrapper -/

/-- The sign of an `int`: below, at or above zero. -/
def sign (d : Int32) : Ordering := compare d.toInt 0

theorem toInt_neg_iff (d : Int32) : d.toInt < 0 ↔ d.toBitVec.msb = true := by
  rw [BitVec.msb_eq_toInt, Int32.toInt_toBitVec, decide_eq_true_iff]

theorem toInt_or_neg_iff (d e : Int32) : (d ||| e).toInt < 0 ↔ d.toInt < 0 ∨ e.toInt < 0 := by
  rw [toInt_neg_iff, toInt_neg_iff, toInt_neg_iff, Int32.toBitVec_or, BitVec.msb_or,
    Bool.or_eq_true]

/-- A number joined with its negation is never positive. -/
theorem sign_or_neg (d : Int32) : sign (d ||| -d) = if d = 0 then .eq else .lt := by
  by_cases hd : d = 0
  · rw [if_pos hd, hd]
    rfl
  · have hne : d.toInt ≠ 0 := fun h => hd (Int32.toInt_inj.mp h)
    have hlt : (d ||| -d).toInt < 0 := by
      rw [toInt_or_neg_iff]
      by_contra hpos
      rw [Int32.toInt_neg] at hpos
      have hlo := d.le_toInt
      have hhi := d.toInt_lt
      rw [Int.bmod_eq_of_le (by omega) (by omega)] at hpos
      omega
    rw [if_neg hd, sign, compare_lt_iff_lt]
    exact hlt

theorem table_getElem? {β : Type} (copy : ℕ → β) (rva : UInt64) :
    (table copy)[(rva % 31).toNat]? = some (copy (rva % 31).toNat) := by
  have hlt : (rva % 31).toNat < copies := by
    rw [UInt64.toNat_mod]
    exact Nat.mod_lt _ (by decide)
  rw [table, List.getElem?_map, List.getElem?_range hlt, Option.map_some]

end Fluffi.Fuzzcmp
