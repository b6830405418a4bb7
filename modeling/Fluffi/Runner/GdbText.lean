import Fluffi.Runner.GdbThread
import Mathlib.Data.List.Basic

/-! Numbers in base sixteen as the debugger and the runner print and read them. What is
printed, with leading zeros or without, is read back from the front of any text that does
not go on with a digit. -/

namespace Fluffi.Runner.Gdb

/-! ### Printing -/

/-- `std::hex` -/
def hexText (n : ℕ) : Line := Nat.toDigits 16 n

/-- `std::setw(w)` with `std::setfill('0')`. -/
def zeroFilled (w : ℕ) (text : Line) : Line := List.replicate (w - text.length) '0' ++ text

/-! ### Reading -/

def isSpace (c : Char) : Bool := " \t\x0c\x0b\n\r".toList.contains c

/-- `std::stoull` in base sixteen on any text, with blanks and a sign in front; `none` where
it throws. -/
def stoull16 (text : Line) : Option UInt64 :=
  let text := text.dropWhile isSpace
  let (negative, text) := match text with
    | '-' :: rest => (true, rest)
    | '+' :: rest => (false, rest)
    | _ => (false, text)
  (hexNumber text).bind fun n =>
    if n < 2 ^ 64 then some (if negative then 0 - UInt64.ofNat n else UInt64.ofNat n) else none

/-! ### What is printed is read -/

theorem hexDigit_digitChar {d : ℕ} (hd : d < 16) : hexDigit d.digitChar = some d := by
  have hall : ∀ d < 16, hexDigit (Nat.digitChar d) = some d := by decide
  exact hall d hd

/-- The text does not go on with a digit. -/
def NoDigit (rest : Line) : Prop := ∀ c ∈ rest.head?, hexDigit c = none

theorem hexDigits_stop {rest : Line} (hrest : NoDigit rest) (n : ℕ) :
    hexDigits rest n true = some n := by
  cases rest with
  | nil => rfl
  | cons c rest =>
    have hc : hexDigit c = none := hrest c rfl
    simp [hexDigits, hc]

theorem hexDigits_cons {d : ℕ} (hd : d < 16) (rest : Line) (n : ℕ) (any : Bool) :
    hexDigits (d.digitChar :: rest) n any = hexDigits rest (16 * n + d) true := by
  simp only [hexDigits, hexDigit_digitChar hd]

theorem hexDigits_hexText (n : ℕ) (any : Bool) (rest : Line) :
    hexDigits (hexText n ++ rest) 0 any = hexDigits rest n true := by
  induction n using Nat.strongRecOn generalizing any rest with
  | ind n ih =>
    by_cases hn : n < 16
    · rw [hexText, Nat.toDigits_of_lt_base hn, List.singleton_append, hexDigits_cons hn]
      simp
    · have hdiv : n / 16 < n := Nat.div_lt_self (by omega) (by decide)
      have hmod : n % 16 < 16 := Nat.mod_lt n (by decide)
      have hread := ih (n / 16) hdiv any ((n % 16).digitChar :: rest)
      rw [hexText] at hread
      rw [hexText, Nat.toDigits_of_base_le (by decide) (by omega), List.append_assoc,
        List.singleton_append, hread, hexDigits_cons hmod, Nat.div_add_mod]

theorem hexDigits_zeros (z : ℕ) (any : Bool) (n : ℕ) (rest : Line) :
    hexDigits (List.replicate z '0' ++ hexText n ++ rest) 0 any = hexDigits rest n true := by
  induction z generalizing any with
  | zero => simpa using hexDigits_hexText n any rest
  | succ z ih =>
    rw [List.replicate_succ, List.cons_append, List.cons_append,
      show ('0' : Char) = Nat.digitChar 0 from rfl, hexDigits_cons (by decide)]
    exact ih true

/-- Printed with any number of leading zeros. -/
theorem hexDigits_zeroFilled (w n : ℕ) {rest : Line} (hrest : NoDigit rest) :
    hexDigits (zeroFilled w (hexText n) ++ rest) 0 false = some n := by
  rw [zeroFilled, hexDigits_zeros]
  exact hexDigits_stop hrest n

theorem zeroFilled_hexText_injective (w : ℕ) :
    Function.Injective fun n => zeroFilled w (hexText n) := by
  intro m n h
  have hread := fun k => @hexDigits_zeroFilled w k [] (by simp [NoDigit])
  have hm := hread m
  simp only [show zeroFilled w (hexText m) = zeroFilled w (hexText n) from h, hread n,
    Option.some.injEq] at hm
  exact hm.symm

/-! ### The characters of a number -/

theorem mem_hexText {n : ℕ} {c : Char} (hc : c ∈ hexText n) : (hexDigit c).isSome = true := by
  induction n using Nat.strongRecOn with
  | ind n ih =>
    by_cases hn : n < 16
    · rw [hexText, Nat.toDigits_of_lt_base hn, List.mem_singleton] at hc
      rw [hc, hexDigit_digitChar hn]
      rfl
    · have hdiv : n / 16 < n := Nat.div_lt_self (by omega) (by decide)
      rw [hexText, Nat.toDigits_of_base_le (by decide) (by omega), List.mem_append,
        List.mem_singleton] at hc
      rcases hc with hc | hc
      · exact ih (n / 16) hdiv hc
      · rw [hc, hexDigit_digitChar (Nat.mod_lt n (by decide))]
        rfl

theorem mem_zeroFilled {w n : ℕ} {c : Char} (hc : c ∈ zeroFilled w (hexText n)) :
    (hexDigit c).isSome = true := by
  rcases List.mem_append.mp hc with hc | hc
  · rw [(List.mem_replicate.mp hc).2]
    rfl
  · exact mem_hexText hc

theorem notMem_zeroFilled (w n : ℕ) {c : Char} (hc : hexDigit c = none) :
    c ∉ zeroFilled w (hexText n) := by
  intro h
  have := mem_zeroFilled h
  rw [hc] at this
  cases this

theorem zeroFilled_ne_nil (w n : ℕ) : zeroFilled w (hexText n) ≠ [] := by
  simp [zeroFilled, hexText, Nat.toDigits_ne_nil]

/-! ### Whole numbers -/

theorem hexNumber_of_ne {line : Line} (h : ∀ c rest, line = '0' :: c :: rest → c ≠ 'x' ∧ c ≠ 'X') :
    hexNumber line = hexDigits line 0 false := by
  unfold hexNumber
  split
  · exact absurd rfl (h 'x' _ rfl).1
  · exact absurd rfl (h 'X' _ rfl).2
  · rfl

/-- A number printed without a prefix is read as it is: no `x` comes second. -/
theorem hexNumber_zeroFilled (w n : ℕ) {rest : Line} (hrest : NoDigit rest)
    (hx : ∀ c ∈ rest.head?, c ≠ 'x' ∧ c ≠ 'X') :
    hexNumber (zeroFilled w (hexText n) ++ rest) = some n := by
  rw [← hexDigits_zeroFilled w n hrest]
  apply hexNumber_of_ne
  intro c tail heq
  obtain ⟨d, ds, hds⟩ := List.exists_cons_of_ne_nil (zeroFilled_ne_nil w n)
  rw [hds, List.cons_append, List.cons.injEq] at heq
  cases ds with
  | nil => exact hx c (by rw [show rest = c :: tail from heq.2]; rfl)
  | cons e ds =>
    have he : c ∈ zeroFilled w (hexText n) := by
      rw [hds]
      have hce : e = c := by simpa using congrArg List.head? heq.2
      simp [hce]
    have hdigit := mem_zeroFilled he
    constructor <;> rintro rfl <;> revert hdigit <;> decide

theorem hexNumber_prefixed (w n : ℕ) {rest : Line} (hrest : NoDigit rest) :
    hexNumber ("0x".toList ++ zeroFilled w (hexText n) ++ rest) = some n := by
  have hread := hexDigits_zeroFilled w n hrest
  simp [hexNumber, hread]

theorem isSpace_of_hexDigit {c : Char} (hc : (hexDigit c).isSome = true) : isSpace c = false := by
  by_contra h
  rw [Bool.not_eq_false, isSpace, List.contains_iff_mem] at h
  have hmem : c = ' ' ∨ c = '\t' ∨ c = '\x0c' ∨ c = '\x0b' ∨ c = '\n' ∨ c = '\r' := by
    simpa using h
  rcases hmem with rfl | rfl | rfl | rfl | rfl | rfl <;> exact absurd hc (by decide)

/-- Blanks in front are skipped, and a text that starts with a digit has no sign. -/
theorem stoull16_of_hexNumber {blanks text : Line} {n : ℕ} (hblanks : ∀ c ∈ blanks, isSpace c)
    (htext : ∀ c ∈ text.head?, (hexDigit c).isSome = true) (hnumber : hexNumber text = some n)
    (hn : n < 2 ^ 64) : stoull16 (blanks ++ text) = some (UInt64.ofNat n) := by
  cases text with
  | nil => simp [hexNumber, hexDigits] at hnumber
  | cons c text =>
    have hdigit : (hexDigit c).isSome = true := htext c rfl
    have hspace := isSpace_of_hexDigit hdigit
    have hminus : c ≠ '-' := by
      rintro rfl
      revert hdigit
      decide
    have hplus : c ≠ '+' := by
      rintro rfl
      revert hdigit
      decide
    have hdrop : (blanks ++ c :: text).dropWhile isSpace = c :: text := by
      rw [List.dropWhile_append_of_pos hblanks, List.dropWhile_cons_of_neg (by simp [hspace])]
    rw [stoull16]
    simp only [hdrop]
    split
    · rename_i rest hrest
      exact absurd (List.cons.inj hrest).1 hminus
    · rename_i rest hrest
      exact absurd (List.cons.inj hrest).1 hplus
    · rw [hnumber, Option.bind_some, if_pos hn]
      rfl

theorem stoull16_prefixed {blanks rest : Line} (hblanks : ∀ c ∈ blanks, isSpace c) (w : ℕ)
    {n : ℕ} (hn : n < 2 ^ 64) (hrest : NoDigit rest) :
    stoull16 (blanks ++ ("0x".toList ++ zeroFilled w (hexText n) ++ rest)) =
      some (UInt64.ofNat n) :=
  stoull16_of_hexNumber hblanks (by simp; rfl) (hexNumber_prefixed w n hrest) hn

theorem stoull16_zeroFilled (w : ℕ) {n : ℕ} (hn : n < 2 ^ 64) {rest : Line}
    (hrest : NoDigit rest) (hx : ∀ c ∈ rest.head?, c ≠ 'x' ∧ c ≠ 'X') :
    stoull16 (zeroFilled w (hexText n) ++ rest) = some (UInt64.ofNat n) := by
  refine @stoull16_of_hexNumber [] _ _ (by simp) ?_ (hexNumber_zeroFilled w n hrest hx) hn
  intro c hc
  obtain ⟨d, ds, hds⟩ := List.exists_cons_of_ne_nil (zeroFilled_ne_nil w n)
  rw [hds] at hc
  obtain rfl : d = c := by simpa using hc
  exact @mem_zeroFilled w n d (by rw [hds]; exact List.mem_cons_self)

end Fluffi.Runner.Gdb
