import Mathlib.Data.Finset.Card
import Mathlib.Data.Finset.Dedup
import Mathlib.Order.Interval.Finset.Nat

/-! Keeping the lowest. Of the elements that are held, those with fewer than `n` others below them
stay when the rest is cut off. What comes later is above all that was held, so what a cut has left
is left by the cuts that follow. -/

namespace Fluffi.Systems

variable {κ : Type*} [LinearOrder κ] {held held' : Finset κ} {n : ℕ} {x y : κ}

/-- How many of the held elements are below. -/
def rank (held : Finset κ) (x : κ) : ℕ := (held.filter (· < x)).card

/-- The `n` lowest of the held elements. -/
def lowest (n : ℕ) (held : Finset κ) : Finset κ := held.filter (rank held · < n)

theorem mem_lowest : x ∈ lowest n held ↔ x ∈ held ∧ rank held x < n := Finset.mem_filter

theorem rank_getElem {l : List κ} (hl : l.Pairwise (· < ·)) {i : ℕ} (hi : i < l.length) :
    rank l.toFinset l[i] = i := by
  have hbelow : l.toFinset.filter (· < l[i]) = (l.take i).toFinset := by
    ext y
    rw [Finset.mem_filter, List.mem_toFinset, List.mem_toFinset, List.mem_take_iff_getElem]
    constructor
    · rintro ⟨hy, hlt⟩
      obtain ⟨j, hj, rfl⟩ := List.mem_iff_getElem.mp hy
      refine ⟨j, lt_min_iff.mpr ⟨?_, hj⟩, rfl⟩
      by_contra hle
      rcases (not_lt.mp hle).eq_or_lt with rfl | hij
      · exact lt_irrefl _ hlt
      · exact lt_asymm hlt (List.pairwise_iff_getElem.mp hl i j hi hj hij)
    · rintro ⟨j, hj, rfl⟩
      obtain ⟨hji, hjl⟩ := lt_min_iff.mp hj
      exact ⟨List.getElem_mem hjl, List.pairwise_iff_getElem.mp hl j i hjl hi hji⟩
  have hnodup : (l.take i).Nodup :=
    (hl.imp fun h => ne_of_lt h).sublist (List.take_sublist i l)
  rw [rank, hbelow, List.toFinset_card_of_nodup hnodup, List.length_take, min_eq_left hi.le]

/-- What is not above the last element that fits is among the lowest. -/
theorem mem_lowest_iff_cut {l : List κ} (hl : l.Pairwise (· < ·)) (hn : 0 < n) (hx : x ∈ l) :
    x ∈ lowest n l.toFinset ↔ ∀ limit, l[n - 1]? = some limit → x ≤ limit := by
  obtain ⟨i, hi, rfl⟩ := List.mem_iff_getElem.mp hx
  rw [mem_lowest, and_iff_right (List.mem_toFinset.mpr hx), rank_getElem hl hi]
  constructor
  · intro hin limit hlimit
    obtain ⟨hlast, rfl⟩ := List.getElem?_eq_some_iff.mp hlimit
    rcases (Nat.le_sub_one_of_lt hin).eq_or_lt with rfl | hlt
    · exact le_refl _
    · exact (List.pairwise_iff_getElem.mp hl i (n - 1) hi hlast hlt).le
  · intro h
    by_contra hin
    have hlast : n - 1 < l.length := by omega
    have hle := h l[n - 1] (List.getElem?_eq_getElem hlast)
    have hlt := List.pairwise_iff_getElem.mp hl (n - 1) i hlast hi (by omega)
    exact absurd hle (not_le.mpr hlt)

end Fluffi.Systems
