import Mathlib.Data.Int.Notation
import Mathlib.Algebra.Order.Ring.Int
import Mathlib.Tactic.Positivity
import Mathlib.Tactic.Ring

/-! Waiting until a deadline. What is left of the time may be negative when it is cast to a type
of fixed width, and a wait that a signal interrupts may be started over with the timeout it had
at first. Times that are spent are natural numbers, readings of a clock are integers. -/

namespace Fluffi.Systems.Deadlines

/-! ### Casts of the remaining time -/

/-- The cast to an unsigned type of `w` bits. -/
def toUnsigned (w : ℕ) (x : ℤ) : ℤ := x % 2 ^ w

/-- The cast to a signed type of `w` bits. -/
def toSigned (w : ℕ) (x : ℤ) : ℤ := x.bmod (2 ^ w)

variable {w k timeout : ℕ} {x : ℤ}

theorem toUnsigned_of_lt (h₀ : 0 ≤ x) (h : x < 2 ^ w) : toUnsigned w x = x :=
  Int.emod_eq_of_lt h₀ h

theorem toSigned_eq (x : ℤ) :
    toSigned (w + 1) x =
      if x % 2 ^ (w + 1) < 2 ^ w then x % 2 ^ (w + 1) else x % 2 ^ (w + 1) - 2 ^ (w + 1) := by
  have hpow : (2 : ℤ) ^ (w + 1) = 2 * 2 ^ w := by ring
  have hhalf : (((2 ^ (w + 1) : ℕ) : ℤ) + 1) / 2 = 2 ^ w := by
    push_cast
    omega
  rw [toSigned, Int.bmod_def, hhalf]
  push_cast
  rfl

theorem toSigned_of_lt (h₀ : 0 ≤ x) (h : x < 2 ^ w) : toSigned (w + 1) x = x := by
  have hpow : (2 : ℤ) ^ (w + 1) = 2 * 2 ^ w := by ring
  have hmod : x % 2 ^ (w + 1) = x := Int.emod_eq_of_lt h₀ (by omega)
  rw [toSigned_eq, hmod, if_pos h]

/-- The residue of a negative number, from the one of the number without its sign. -/
theorem residue_neg (w k : ℕ) :
    (k % 2 ^ w = 0 ∧ -(k : ℤ) % 2 ^ w = 0) ∨
      (0 < k % 2 ^ w ∧ -(k : ℤ) % 2 ^ w = ((2 ^ w - k % 2 ^ w : ℕ) : ℤ)) := by
  have hdvd : (2 : ℤ) ^ w ∣ k ↔ k % 2 ^ w = 0 := by
    exact_mod_cast Nat.dvd_iff_mod_eq_zero
  have hcast : (k : ℤ) % 2 ^ w = ((k % 2 ^ w : ℕ) : ℤ) := by push_cast; rfl
  have habs : ((2 : ℤ) ^ w).natAbs = 2 ^ w := by simp [Int.natAbs_pow]
  rw [Int.neg_emod, habs, hcast]
  rcases Nat.eq_zero_or_pos (k % 2 ^ w) with hzero | hpos
  · exact .inl ⟨hzero, if_pos (hdvd.mpr hzero)⟩
  · refine .inr ⟨hpos, ?_⟩
    rw [if_neg fun hd => hpos.ne' (hdvd.mp hd),
      Nat.cast_sub (Nat.mod_lt k (Nat.two_pow_pos w)).le]

/-- A deadline that has passed becomes a long timeout, unless the cast wraps around. -/
theorem toUnsigned_neg_le_iff (ht : timeout < 2 ^ w) :
    toUnsigned w (-(k : ℤ)) ≤ timeout ↔ k % 2 ^ w = 0 ∨ 2 ^ w - timeout ≤ k % 2 ^ w := by
  have hlt : k % 2 ^ w < 2 ^ w := Nat.mod_lt k (Nat.two_pow_pos w)
  rw [toUnsigned]
  rcases residue_neg w k with ⟨hzero, hres⟩ | ⟨hpos, hres⟩
  · rw [hres]
    simp [hzero]
  · rw [hres, Nat.cast_le]
    omega

/-- In a signed type it stays negative, until the cast wraps around. -/
theorem toSigned_neg_le_iff (ht : timeout < 2 ^ w) :
    toSigned (w + 1) (-(k : ℤ)) ≤ timeout ↔
      k % 2 ^ (w + 1) ≤ 2 ^ w ∨ 2 ^ (w + 1) - timeout ≤ k % 2 ^ (w + 1) := by
  have hlt : k % 2 ^ (w + 1) < 2 ^ (w + 1) := Nat.mod_lt k (Nat.two_pow_pos (w + 1))
  have hpow : 2 ^ (w + 1) = 2 * 2 ^ w := by ring
  have hhalf : ((2 : ℤ) ^ w) = ((2 ^ w : ℕ) : ℤ) := by push_cast; rfl
  have hfull : ((2 : ℤ) ^ (w + 1)) = ((2 ^ (w + 1) : ℕ) : ℤ) := by push_cast; rfl
  rw [toSigned_eq]
  rcases residue_neg (w + 1) k with ⟨hzero, hres⟩ | ⟨hpos, hres⟩
  · rw [hres, hzero]
    have hhalfpos : 0 < 2 ^ w := Nat.two_pow_pos w
    rw [if_pos (by positivity)]
    simp
  · rw [hres, hhalf, hfull]
    split <;> omega

/-! ### Waits that are started over -/

/-- The time spent in a wait that is started over, with the same timeout, after each signal that
interrupts it. `ends` is when something else ends it, and each signal comes that long after the
wait was started last. -/
def restarted (timeout : ℕ) : Option ℕ → List ℕ → ℕ
  | ends, [] => ends.elim timeout (min timeout)
  | ends, signal :: signals =>
    match ends.filter (· ≤ min signal timeout) with
    | some e => e
    | none =>
      if timeout ≤ signal then timeout
      else signal + restarted timeout (ends.map (· - signal)) signals

/-- Nothing ends the wait before its timeout. -/
def Late (timeout : ℕ) (ends : Option ℕ) : Prop := ∀ e, ends = some e → timeout < e

section Restarted

variable {e signal : ℕ} {ends : Option ℕ} {signals : List ℕ}

/-- What comes before the timeout of the first start ends the wait when it comes. -/
theorem restarted_of_le (he : e ≤ timeout) : restarted timeout (some e) signals = e := by
  induction signals generalizing e with
  | nil => exact Nat.min_eq_right he
  | cons signal signals ih =>
    rw [restarted]
    by_cases hfirst : e ≤ min signal timeout
    · rw [Option.filter_some_pos (by simpa using hfirst)]
    · rw [Option.filter_some_neg (by simpa using hfirst)]
      have hsignal : signal < e := by omega
      simp only [Option.map_some, ih (show e - signal ≤ timeout by omega)]
      rw [if_neg (by omega)]
      omega

theorem restarted_cons (hlate : Late timeout ends) :
    restarted timeout ends (signal :: signals) =
      if timeout ≤ signal then timeout
      else signal + restarted timeout (ends.map (· - signal)) signals := by
  have hnone : ends.filter (· ≤ min signal timeout) = none := by
    cases ends with
    | none => rfl
    | some e =>
      have he := hlate e rfl
      rw [Option.filter_some_neg (by simpa using fun _ => he)]
  rw [restarted, hnone]

/-- After a signal, either the last start takes the whole timeout, or what ends it is too late
when the time before the signal is counted. -/
theorem late_after (hlate : Late timeout ends)
    (hrest : Late timeout (ends.map (· - signal)) →
      timeout ≤ restarted timeout (ends.map (· - signal)) signals) :
    timeout ≤ restarted timeout (ends.map (· - signal)) signals ∨
      timeout < signal + restarted timeout (ends.map (· - signal)) signals := by
  by_cases hstill : Late timeout (ends.map (· - signal))
  · exact .inl (hrest hstill)
  · simp only [Late, Option.map_eq_some_iff, not_forall, not_lt, exists_prop] at hstill
    obtain ⟨_, ⟨e, rfl, rfl⟩, hsoon⟩ := hstill
    have he := hlate e rfl
    rw [Option.map_some, restarted_of_le hsoon]
    omega

theorem le_restarted (hlate : Late timeout ends) : timeout ≤ restarted timeout ends signals := by
  induction signals generalizing ends with
  | nil =>
    cases ends with
    | none => exact le_rfl
    | some e => exact le_min le_rfl (hlate e rfl).le
  | cons signal signals ih =>
    rw [restarted_cons hlate]
    split
    · exact le_rfl
    · rcases late_after hlate ih with hfull | hcounted
      · exact hfull.trans (Nat.le_add_left ..)
      · exact hcounted.le

/-- A signal in the middle of a wait makes it too long. -/
theorem lt_restarted (hlate : Late timeout ends) (hpos : 0 < signal) (hsignal : signal < timeout) :
    timeout < restarted timeout ends (signal :: signals) := by
  rw [restarted_cons hlate, if_neg (not_le.mpr hsignal)]
  rcases late_after hlate le_restarted with hfull | hcounted
  · exact hfull.trans_lt (Nat.lt_add_of_pos_left hpos)
  · exact hcounted

/-- A wait takes no longer than its timeout exactly if something ends it by then, or the first
signal that comes while it waits does not come before the timeout. -/
theorem restarted_le_iff :
    restarted timeout ends signals ≤ timeout ↔
      (∃ e, ends = some e ∧ e ≤ timeout) ∨
        ∀ signal, (signals.dropWhile (· == 0)).head? = some signal → timeout ≤ signal := by
  by_cases hlate : Late timeout ends
  · have hnot : ¬ ∃ e, ends = some e ∧ e ≤ timeout := by
      rintro ⟨e, he, hle⟩
      exact absurd (hlate e he) (not_lt.mpr hle)
    simp only [hnot, false_or]
    clear hnot
    induction signals with
    | nil =>
      refine iff_of_true ?_ (by simp)
      cases ends with
      | none => exact le_rfl
      | some e => exact min_le_left _ _
    | cons signal signals ih =>
      rcases Nat.eq_zero_or_pos signal with rfl | hpos
      · -- a signal that comes at once costs nothing
        rw [List.dropWhile_cons_of_pos rfl, restarted_cons hlate]
        refine Iff.trans ?_ ih
        split
        next hzero =>
          obtain rfl : timeout = 0 := Nat.le_zero.mp hzero
          exact iff_of_true le_rfl (ih.mpr fun _ _ => Nat.zero_le _)
        next => simp
      · rw [List.dropWhile_cons_of_neg (by simpa using hpos.ne')]
        simp only [List.head?_cons, Option.some.injEq, forall_eq']
        constructor
        · intro hle
          by_contra hlt
          exact absurd hle (not_le.mpr (lt_restarted hlate hpos (not_le.mp hlt)))
        · intro hle
          rw [restarted_cons hlate, if_pos hle]
  · have hsoon : ∃ e, ends = some e ∧ e ≤ timeout := by
      simpa [Late] using hlate
    refine iff_of_true ?_ (.inl hsoon)
    obtain ⟨e, rfl, hle⟩ := hsoon
    rw [restarted_of_le hle]
    exact hle

end Restarted

end Fluffi.Systems.Deadlines
