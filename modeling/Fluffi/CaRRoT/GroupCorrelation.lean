import Fluffi.CaRRoT.Correlation
import Fluffi.CaRRoT.Grouping

/-! The correlation of groups. A worker gets a group of integers and a group of strings, and looks
for an offset that many of the pairs have in common. The number of workers is what half of the
processors leave beside the collector, which may be nothing. -/

namespace Fluffi.CaRRoT

open Fluffi.Systems.Slices Fluffi.Systems.Pipeline

/-- The offsets that were found, how often, and how often the most frequent. -/
structure Histogram where
  counts : List (ℕ × ℕ)
  max : ℕ

def Histogram.add (h : Histogram) (base : ℕ) : Histogram :=
  let count := (h.counts.lookup base).getD 0 + 1
  ⟨(base, count) :: h.counts.filter fun c => c.1 ≠ base, if count > h.max then count else h.max⟩

variable {F : Type*}

section Correlation

variable {strs : List Text} {ints : List FoundInt} {isc : IntStringGroupCorrelation}
  {α : Type*} {data group : List α} {r : ℤ × ℤ} {numCPU : ℕ}

end Correlation

end Fluffi.CaRRoT
