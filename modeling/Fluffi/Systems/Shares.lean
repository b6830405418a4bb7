import Mathlib.Algebra.Order.Ring.Nat
import Mathlib.Order.Interval.Finset.Nat

/-! A list of weights cuts the numbers `1, …, W` up to its sum into consecutive shares,
one for each position and as long as its weight. Every number lies in exactly one share, so
drawing a number draws a position with the weight of the position. -/

namespace Fluffi.Systems

/-- The numbers of position `i`: behind the weights before it and within its own. -/
def shareOf (ws : List ℕ) (i : ℕ) : Finset ℕ :=
  Finset.Ioc (ws.take i).sum (ws.take (i + 1)).sum

theorem mem_shareOf {ws : List ℕ} {i r : ℕ} :
    r ∈ shareOf ws i ↔ (ws.take i).sum < r ∧ r ≤ (ws.take (i + 1)).sum :=
  Finset.mem_Ioc

theorem sum_take_succ_of_lt {ws : List ℕ} {i : ℕ} (hi : i < ws.length) :
    (ws.take (i + 1)).sum = (ws.take i).sum + ws[i] := by
  induction ws generalizing i with
  | nil => simp at hi
  | cons w ws ih =>
    cases i with
    | zero => simp
    | succ i =>
      have := ih (i := i) (by simpa using hi)
      simp only [List.take_succ_cons, List.sum_cons, List.getElem_cons_succ] at this ⊢
      omega

theorem sum_take_mono (ws : List ℕ) {i j : ℕ} (hij : i ≤ j) :
    (ws.take i).sum ≤ (ws.take j).sum := by
  induction ws generalizing i j with
  | nil => simp
  | cons w ws ih =>
    cases i with
    | zero => simp
    | succ i =>
      obtain ⟨j, rfl⟩ : ∃ k, j = k + 1 := ⟨j - 1, by omega⟩
      have := ih (i := i) (j := j) (by omega)
      simp only [List.take_succ_cons, List.sum_cons]
      omega

theorem sum_take_le (ws : List ℕ) (i : ℕ) : (ws.take i).sum ≤ ws.sum := by
  have := sum_take_mono ws (Nat.le_max_left i ws.length)
  rwa [List.take_of_length_le (Nat.le_max_right i ws.length)] at this

theorem card_shareOf {ws : List ℕ} {i : ℕ} (hi : i < ws.length) :
    (shareOf ws i).card = ws[i] := by
  rw [shareOf, Nat.card_Ioc, sum_take_succ_of_lt hi]
  omega

theorem shareOf_subset (ws : List ℕ) (i : ℕ) : shareOf ws i ⊆ Finset.Icc 1 ws.sum := by
  intro r hr
  rw [mem_shareOf] at hr
  have := sum_take_le ws (i + 1)
  rw [Finset.mem_Icc]
  omega

theorem lt_length_of_mem_shareOf {ws : List ℕ} {i r : ℕ} (hr : r ∈ shareOf ws i) :
    i < ws.length := by
  rw [mem_shareOf] at hr
  by_contra hi
  rw [List.take_of_length_le (by omega), List.take_of_length_le (by omega)] at hr
  omega

theorem shareOf_unique {ws : List ℕ} {i j r : ℕ} (hi : r ∈ shareOf ws i)
    (hj : r ∈ shareOf ws j) : i = j := by
  rw [mem_shareOf] at hi hj
  rcases Nat.lt_trichotomy i j with hlt | heq | hgt
  · have := sum_take_mono ws (i := i + 1) (j := j) hlt
    omega
  · exact heq
  · have := sum_take_mono ws (i := j + 1) (j := i) hgt
    omega

/-- The share of a number behind the sum of the first `i` weights is found further on. -/
theorem exists_mem_shareOf {ws : List ℕ} {r : ℕ} (hr : r ≤ ws.sum) (i : ℕ)
    (hi : (ws.take i).sum < r) : ∃ j, i ≤ j ∧ r ∈ shareOf ws j := by
  by_cases hnext : r ≤ (ws.take (i + 1)).sum
  · exact ⟨i, le_rfl, mem_shareOf.mpr ⟨hi, hnext⟩⟩
  · have hlen : i < ws.length := by
      by_contra hge
      rw [List.take_of_length_le (by omega)] at hi
      omega
    obtain ⟨j, hj, hmem⟩ := exists_mem_shareOf hr (i + 1) (by omega)
    exact ⟨j, by omega, hmem⟩
termination_by ws.length - i

theorem existsUnique_mem_shareOf {ws : List ℕ} {r : ℕ} (hr : r ∈ Finset.Icc 1 ws.sum) :
    ∃! i, r ∈ shareOf ws i := by
  rw [Finset.mem_Icc] at hr
  obtain ⟨i, -, hi⟩ := exists_mem_shareOf hr.2 0 (by simp; omega)
  exact ⟨i, hi, fun j hj => shareOf_unique hj hi⟩

end Fluffi.Systems
