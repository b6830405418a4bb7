import Mathlib.Data.List.Infix
import Mathlib.Data.List.Flatten
import Mathlib.Algebra.Group.Nat.Defs

/-! Records that stand one behind the other in a list and are read field by field. A record
is read as a whole or not at all, so of a list that was cut anywhere a reader has what it
would have of the records that are complete in it. -/

namespace Fluffi.Systems

variable {α β R σ ω : Type*}

/-! ### Numbers, the least byte first -/

def word (bytes : List UInt8) : ℕ := bytes.foldr (fun b n => b.toNat + 256 * n) 0

def bytesOf : ℕ → ℕ → List UInt8
  | 0, _ => []
  | k + 1, n => UInt8.ofNat n :: bytesOf k (n / 256)

@[simp] theorem bytesOf_length (k n : ℕ) : (bytesOf k n).length = k := by
  induction k generalizing n with
  | zero => rfl
  | succ k ih => rw [bytesOf, List.length_cons, ih]

theorem word_bytesOf_mod (k n : ℕ) : word (bytesOf k n) = n % 256 ^ k := by
  induction k generalizing n with
  | zero => exact (Nat.mod_one n).symm
  | succ k ih =>
    calc word (bytesOf (k + 1) n)
        = (UInt8.ofNat n).toNat + 256 * word (bytesOf k (n / 256)) := rfl
      _ = n % 256 + 256 * (n / 256 % 256 ^ k) := by rw [ih, UInt8.toNat_ofNat']
      _ = n % 256 ^ (k + 1) := by rw [Nat.pow_succ', Nat.mod_mul]

theorem word_bytesOf {k n : ℕ} (h : n < 256 ^ k) : word (bytesOf k n) = n := by
  rw [word_bytesOf_mod, Nat.mod_eq_of_lt h]

theorem word_lt (bytes : List UInt8) : word bytes < 256 ^ bytes.length := by
  induction bytes with
  | nil => exact Nat.one_pos
  | cons b bytes ih =>
    have hb := b.toNat_lt
    have hcons : word (b :: bytes) = b.toNat + 256 * word bytes := rfl
    rw [hcons, List.length_cons, Nat.pow_succ']
    omega

theorem word_eq_zero_iff (bytes : List UInt8) : word bytes = 0 ↔ ∀ b ∈ bytes, b = 0 := by
  induction bytes with
  | nil => exact iff_of_true rfl fun b hb => absurd hb List.not_mem_nil
  | cons b bytes ih =>
    have hcons : word (b :: bytes) = b.toNat + 256 * word bytes := rfl
    have hb : b = 0 ↔ b.toNat = 0 := UInt8.toNat_inj.symm
    rw [hcons, List.forall_mem_cons, ← ih, hb]
    omega

/-! ### Fields -/

/-- The next `n` elements and what is behind them, or too few. -/
def readField (n : ℕ) (l : List α) (tooFew : β) (next : List α → List α → β) : β :=
  if n ≤ l.length then next (l.take n) (l.drop n) else tooFew

theorem readField_append {n : ℕ} {field : List α} (hfield : field.length = n) (l : List α)
    (tooFew : β) (next : List α → List α → β) :
    readField n (field ++ l) tooFew next = next field l := by
  subst hfield
  rw [readField, if_pos (by simp), List.take_left, List.drop_left]

/-- Cut somewhere before the end. -/
def CutOff (part l : List α) : Prop := part <+: l ∧ part ≠ l

theorem not_cutOff_nil {part : List α} : ¬ CutOff part [] := fun h =>
  h.2 (List.prefix_nil.mp h.1)

/-- The end is in the field, or behind it. -/
theorem CutOff.readField {n : ℕ} {part field l : List α} {tooFew : β}
    {next : List α → List α → β} (h : CutOff part (field ++ l)) (hfield : field.length = n)
    (hnext : ∀ part', CutOff part' l → next field part' = tooFew) :
    Systems.readField n part tooFew next = tooFew := by
  rcases Nat.lt_or_ge part.length n with hlt | hge
  · exact if_neg (by omega)
  · obtain ⟨part', rfl⟩ :=
      List.prefix_of_prefix_length_le (List.prefix_append field l) h.1 (by omega)
    rw [readField_append hfield]
    refine hnext part' ⟨(List.prefix_append_right_inj field).mp h.1, ?_⟩
    rintro rfl
    exact h.2 rfl

/-! ### Records -/

/-- The records that are complete within the first `n` elements. -/
def complete (encode : R → List α) : ℕ → List R → List R
  | _, [] => []
  | n, r :: records =>
    if (encode r).length ≤ n then r :: complete encode (n - (encode r).length) records else []

theorem mem_complete_iff {encode : R → List α} {n : ℕ} {records : List R} {r : R} :
    r ∈ complete encode n records ↔ ∃ before after, records = before ++ r :: after ∧
      ((before ++ [r]).flatMap encode).length ≤ n := by
  induction records generalizing n with
  | nil => simp [complete]
  | cons r' records ih =>
    rw [complete]
    split
    next hfits =>
      rw [List.mem_cons, ih]
      constructor
      · rintro (rfl | ⟨before, after, rfl, hle⟩)
        · exact ⟨[], records, rfl, by simpa using hfits⟩
        · refine ⟨r' :: before, after, rfl, ?_⟩
          rw [List.cons_append, List.flatMap_cons, List.length_append]
          omega
      · rintro ⟨before, after, heq, hle⟩
        cases before with
        | nil => exact .inl (List.cons.inj heq).1.symm
        | cons _ before =>
          obtain ⟨rfl, rfl⟩ := List.cons.inj heq
          rw [List.cons_append, List.flatMap_cons, List.length_append] at hle
          exact .inr ⟨before, after, rfl, by omega⟩
    next hcut =>
      refine iff_of_false (by simp) ?_
      rintro ⟨before, after, heq, hle⟩
      -- the first record alone is too long
      cases before with
      | nil =>
        obtain ⟨rfl, rfl⟩ := List.cons.inj heq
        exact hcut (by simpa using hle)
      | cons _ before =>
        obtain ⟨rfl, rfl⟩ := List.cons.inj heq
        rw [List.cons_append, List.flatMap_cons, List.length_append] at hle
        omega

/-- A reader that takes up the records one after the other, and for which a cut off record is
the end, has taken up the complete ones. -/
theorem read_take (encode : R → List α) (read : σ → List α → ω) (apply : σ → R → σ)
    (out : σ → ω) (Fits : σ → R → Prop)
    (hrecord : ∀ s r l, Fits s r → read s (encode r ++ l) = read (apply s r) l)
    (hcut : ∀ s r part, Fits s r → CutOff part (encode r) → read s part = out s)
    (hend : ∀ s, read s [] = out s) (n : ℕ) {s : σ} {records : List R}
    (h : ∀ before r after, records = before ++ r :: after → Fits (before.foldl apply s) r) :
    read s ((records.flatMap encode).take n) =
      out ((complete encode n records).foldl apply s) := by
  induction records generalizing n s with
  | nil => simp [complete, hend]
  | cons r records ih =>
    have hfits : Fits s r := h [] r records rfl
    rw [List.flatMap_cons, List.take_append, complete]
    split
    next hle =>
      rw [List.take_of_length_le hle, hrecord s r _ hfits, List.foldl_cons]
      refine ih _ fun before r' after heq => ?_
      exact h (r :: before) r' after (by rw [heq]; rfl)
    next hlt =>
      have hnil : n - (encode r).length = 0 := by omega
      rw [hnil, List.take_zero, List.append_nil, List.foldl_nil]
      refine hcut s r _ hfits ⟨List.take_prefix n _, fun heq => ?_⟩
      have := congrArg List.length heq
      rw [List.length_take] at this
      omega

end Fluffi.Systems
