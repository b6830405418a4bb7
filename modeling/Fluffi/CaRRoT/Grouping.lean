import Fluffi.CaRRoT.Ints
import Fluffi.CaRRoT.JenksGroups

/-! The grouping of integers and strings. Several runs cluster the elements into fewer and fewer
groups; fewer than ten elements are one group. -/

namespace Fluffi.CaRRoT

open Fluffi.Systems.Ranges Fluffi.Systems.Slices

/-- What a run does not decide: `scaled a index` is `a` times a power of the scaler, which is at
most one, cut to an integer; and how elements deviate and groupings score is left open. -/
structure Scaler (α F : Type*) where
  scaled : ℕ → ℕ → ℕ
  scaled_le : ∀ a index, scaled a index ≤ a
  deviations : ℕ → Deviations α F
  score : List α → List (ℤ × ℤ) → F
  few : F

/-- The order of magnitude of a length. -/
def olofa (lofa : ℕ) : ℕ := (Nat.toDigits 10 lofa).length

variable {α F : Type*}

/-- The number of groups of a run. -/
def Scaler.groups (p : Scaler α F) (lofa index : ℕ) : ℕ := p.scaled (10 ^ (olofa lofa - 1)) index

section Breaks

variable {count lofa runs : ℕ} {breaks : List (ℤ × ℤ)} {ar : List α} {b r : ℤ × ℤ}

end Breaks

end Fluffi.CaRRoT
