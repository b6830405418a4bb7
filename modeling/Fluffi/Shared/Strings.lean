import Mathlib.Algebra.Group.Int.Defs
import Mathlib.Algebra.Group.Nat.Defs
import Mathlib.Data.List.Basic
import Mathlib.Data.List.TakeWhile
import Mathlib.Tactic.SplitIfs
import Mathlib.Data.Int.Notation

/-! Strings that the components take apart. A setting or a file name is cut at
every occurrence of a token, and the numbers in it are read as the C library
reads them. -/

namespace Fluffi.Shared

/-! ### Splitting -/

/-- The loop of `splitString`: the piece since the last token, the number of
characters of a token still to be skipped, and the rest of the string. -/
def splitLoop (token : List Char) : List Char → ℕ → List Char → List (List Char)
  | piece, _, [] => [piece]
  | piece, skip + 1, _ :: rest => splitLoop token piece skip rest
  | piece, 0, c :: rest =>
    if token.isPrefixOf (c :: rest) then piece :: splitLoop token [] (token.length - 1) rest
    else splitLoop token (piece ++ [c]) 0 rest

/-- `Util::splitString` -/
def splitString (str token : List Char) : List (List Char) :=
  if str.isEmpty then [[]]
  else if token.isEmpty then [str]
  else splitLoop token [] 0 str

theorem splitLoop_ne_nil (token piece : List Char) (skip : ℕ) (str : List Char) :
    splitLoop token piece skip str ≠ [] := by
  induction str generalizing piece skip with
  | nil => simp [splitLoop]
  | cons c rest ih =>
    cases skip with
    | zero =>
      unfold splitLoop
      split
      · exact List.cons_ne_nil _ _
      · exact ih _ _
    | succ skip => exact ih _ _

theorem splitString_ne_nil (str token : List Char) : splitString str token ≠ [] := by
  unfold splitString
  split_ifs
  · exact List.cons_ne_nil _ _
  · exact List.cons_ne_nil _ _
  · exact splitLoop_ne_nil _ _ _ _

theorem modifyHead_nil_append {α : Type*} (l : List (List α)) :
    l.modifyHead ([] ++ ·) = l := by
  cases l with
  | nil => rfl
  | cons x l => rfl

theorem splitLoop_singleton (t : Char) (piece str : List Char) :
    splitLoop [t] piece 0 str = (str.splitOn t).modifyHead (piece ++ ·) := by
  induction str generalizing piece with
  | nil => simp [splitLoop]
  | cons c rest ih =>
    rw [List.splitOn_cons_eq_if_modifyHead]
    by_cases hc : c = t
    · subst hc
      simp only [splitLoop, List.isPrefixOf, beq_self_eq_true, Bool.true_and, if_true,
        List.length_singleton, Nat.sub_self, ih, modifyHead_nil_append, List.modifyHead_cons,
        List.append_nil]
    · have htc : ¬ t = c := fun h => hc h.symm
      simp [splitLoop, ih, hc, htc, Function.comp_def]

/-- At a token of one character, the cuts are those of the library. -/
theorem splitString_singleton (str : List Char) (t : Char) :
    splitString str [t] = str.splitOn t := by
  cases str with
  | nil => rfl
  | cons c rest =>
    unfold splitString
    rw [if_neg (by simp), if_neg (by simp), splitLoop_singleton, modifyHead_nil_append]

/-! ### Numbers -/

/-- A value of type `int`. -/
def IsInt (n : ℤ) : Prop := -2 ^ 31 ≤ n ∧ n < 2 ^ 31

instance (n : ℤ) : Decidable (IsInt n) := inferInstanceAs (Decidable (_ ∧ _))

/-- `std::stoi` in base ten; `none` where it throws. -/
def stoi (text : List Char) : Option ℤ :=
  let text := text.dropWhile " \t\x0c\x0b\n\r".toList.contains
  let (negative, text) := match text with
    | '-' :: rest => (true, rest)
    | '+' :: rest => (false, rest)
    | _ => (false, text)
  let digits := text.takeWhile Char.isDigit
  if digits = [] then none
  else
    let magnitude : ℤ := Nat.ofDigitChars 10 digits 0
    let value := if negative then -magnitude else magnitude
    if IsInt value then some value else none

/-- The number at the start of a text, of any size; `none` if there is none. -/
def integerOf (text : List Char) : Option ℤ :=
  let text := text.dropWhile " \t\x0c\x0b\n\r".toList.contains
  let (negative, text) := match text with
    | '-' :: rest => (true, rest)
    | '+' :: rest => (false, rest)
    | _ => (false, text)
  let digits := text.takeWhile Char.isDigit
  if digits = [] then none
  else
    let magnitude : ℤ := Nat.ofDigitChars 10 digits 0
    some (if negative then -magnitude else magnitude)

/-- `std::stoll` in base ten; `none` where it throws. -/
def stoll (text : List Char) : Option ℤ :=
  (integerOf text).filter fun n => -2 ^ 63 ≤ n ∧ n < 2 ^ 63

theorem filter_none_or_some {α : Type*} {p : Prop} [Decidable p] (a : α) (q : α → Bool) :
    (if p then none else some a).filter q =
      if p then none else if q a = true then some a else none := by
  split
  · rfl
  · rw [Option.filter_some]

theorem stoi_eq (text : List Char) : stoi text = (integerOf text).filter fun n => IsInt n := by
  rw [stoi, integerOf]
  dsimp only
  rw [filter_none_or_some]
  simp only [decide_eq_true_eq]

theorem isInt_of_stoi {text : List Char} {n : ℤ} (h : stoi text = some n) : IsInt n := by
  rw [stoi_eq, Option.filter_eq_some_iff] at h
  simpa using h.2

/-- A printed number is read up to the first character that is no digit. -/
theorem integerOf_toDigits_append (n : ℕ) {rest : List Char}
    (hrest : ∀ c ∈ rest.head?, c.isDigit = false) :
    integerOf (Nat.toDigits 10 n ++ rest) = some (n : ℤ) := by
  have hdigits : ∀ c ∈ Nat.toDigits 10 n, c.isDigit = true := fun c hc =>
    Nat.isDigit_of_mem_toDigits (by decide) (by decide) hc
  have hne : Nat.toDigits 10 n ≠ [] := Nat.toDigits_ne_nil
  have hstop : rest.takeWhile Char.isDigit = [] := by
    cases rest with
    | nil => rfl
    | cons c rest => rw [List.takeWhile_cons_of_neg (by simp [hrest c rfl])]
  have htake : (Nat.toDigits 10 n ++ rest).takeWhile Char.isDigit = Nat.toDigits 10 n := by
    rw [List.takeWhile_append_of_pos hdigits, hstop, List.append_nil]
  obtain ⟨c, tail, hcons⟩ := List.exists_cons_of_ne_nil hne
  have hc : c.isDigit = true := hdigits c (hcons ▸ List.mem_cons_self)
  have hblank : ¬ " \t\x0c\x0b\n\r".toList.contains c = true := by
    intro hmem
    have hall : " \t\x0c\x0b\n\r".toList.all (fun b => !b.isDigit) = true := by decide
    rw [List.all_eq_true] at hall
    simpa [hc] using hall c (List.contains_iff_mem.mp hmem)
  have hminus : c ≠ '-' := by
    rintro rfl
    exact absurd hc (by decide)
  have hplus : c ≠ '+' := by
    rintro rfl
    exact absurd hc (by decide)
  rw [integerOf, hcons, List.cons_append, List.dropWhile_cons_of_neg hblank]
  dsimp only
  split
  next heq => exact absurd (List.cons.inj heq).1 hminus
  next heq => exact absurd (List.cons.inj heq).1 hplus
  next =>
    rw [← List.cons_append, ← hcons, htake, if_neg hne, Nat.ofDigitChars_ten_toDigits]
    rfl

theorem integerOf_toDigits (n : ℕ) : integerOf (Nat.toDigits 10 n) = some (n : ℤ) := by
  have h := @integerOf_toDigits_append n [] (by simp)
  rwa [List.append_nil] at h

theorem stoi_toDigits {n : ℕ} (h : n < 2 ^ 31) : stoi (Nat.toDigits 10 n) = some (n : ℤ) := by
  have hint : IsInt n := ⟨by omega, by omega⟩
  rw [stoi_eq, integerOf_toDigits, Option.filter_some, if_pos (decide_eq_true hint)]

theorem stoll_toDigits {n : ℕ} (h : n < 2 ^ 63) : stoll (Nat.toDigits 10 n) = some (n : ℤ) := by
  rw [stoll, integerOf_toDigits, Option.filter_some, if_pos]
  simp only [decide_eq_true_eq]
  omega

/-- `static_cast<int>` of a size. -/
def intOf (n : ℕ) : ℤ := ((n : ℤ) + 2 ^ 31) % 2 ^ 32 - 2 ^ 31

/-- The result of an operation on `int`s, which is undefined where it overflows. -/
def toInt (n : ℤ) : Option ℤ := if IsInt n then some n else none

theorem toInt_eq_some {n m : ℤ} : toInt n = some m ↔ IsInt n ∧ n = m := by
  simp [toInt]

end Fluffi.Shared
