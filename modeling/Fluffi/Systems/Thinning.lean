import Mathlib.Data.Finset.Basic
import Mathlib.Order.Interval.Finset.Defs
import Mathlib.Order.WellFounded
import Mathlib.Data.Finset.Max

/-! Thinning a finite set out by a relation. One element after the other removes
the greater elements that it stands for. Whatever the order in which the elements
get their turn, the elements that are left are those that nothing smaller stands
for, and a removed element still takes its turn. -/

namespace Fluffi.Systems

variable {α : Type*} [LinearOrder α] (standsFor : α → α → Prop) [DecidableRel standsFor]

/-- The elements of `all` that some smaller element of it stands for. -/
def superseded (all : Finset α) : Finset α :=
  all.filter fun x => ∃ y ∈ all, y < x ∧ standsFor y x

/-- Every element of the list removes what it stands for from what is still there. -/
def thin (all : Finset α) : List α → Finset α → Finset α
  | [], removed => removed
  | c :: rows, removed =>
    thin all rows (removed ∪ (all \ removed).filter fun x => c < x ∧ standsFor c x)

theorem mem_superseded {all : Finset α} {x : α} :
    x ∈ superseded standsFor all ↔ x ∈ all ∧ ∃ y ∈ all, y < x ∧ standsFor y x :=
  Finset.mem_filter

theorem mem_thin {all : Finset α} {rows : List α} {removed : Finset α} {x : α} :
    x ∈ thin standsFor all rows removed ↔
      x ∈ removed ∨ x ∈ all ∧ ∃ c ∈ rows, c < x ∧ standsFor c x := by
  induction rows generalizing removed with
  | nil => simp [thin]
  | cons c rows ih =>
    rw [thin, ih, List.exists_mem_cons_iff]
    simp only [Finset.mem_union, Finset.mem_filter, Finset.mem_sdiff]
    constructor
    · rintro ((hx | ⟨⟨hall, -⟩, hc⟩) | ⟨hall, hrows⟩)
      · exact .inl hx
      · exact .inr ⟨hall, .inl hc⟩
      · exact .inr ⟨hall, .inr hrows⟩
    · rintro (hx | ⟨hall, hc | hrows⟩)
      · exact .inl (.inl hx)
      · by_cases hx : x ∈ removed
        · exact .inl (.inl hx)
        · exact .inl (.inr ⟨⟨hall, hx⟩, hc⟩)
      · exact .inr ⟨hall, hrows⟩

/-- If every element gets a turn, in whatever order, the superseded ones are removed. -/
theorem thin_eq_superseded {all : Finset α} {rows : List α} (hrows : ∀ x, x ∈ rows ↔ x ∈ all) :
    thin standsFor all rows ∅ = superseded standsFor all := by
  ext x
  rw [mem_thin, mem_superseded]
  simp [hrows]

/-- What is left is not thinned out any further. -/
theorem superseded_sdiff (all : Finset α) :
    superseded standsFor (all \ superseded standsFor all) = ∅ := by
  refine Finset.filter_eq_empty_iff.mpr ?_
  rintro x hx ⟨y, hy, hlt, hstands⟩
  obtain ⟨hall, hnot⟩ := Finset.mem_sdiff.mp hx
  exact hnot ((mem_superseded standsFor).mpr ⟨hall, y, (Finset.mem_sdiff.mp hy).1, hlt, hstands⟩)

/-- Every element that can stand for itself is represented by one that is left. -/
theorem exists_left (htrans : ∀ {x y z}, standsFor x y → standsFor y z → standsFor x z)
    {all : Finset α} {x : α} (hx : x ∈ all) (hself : standsFor x x) :
    ∃ y ∈ all, y ∉ superseded standsFor all ∧ y ≤ x ∧ standsFor y x := by
  have hne : (all.filter fun y => standsFor y x).Nonempty :=
    ⟨x, Finset.mem_filter.mpr ⟨hx, hself⟩⟩
  obtain ⟨y, hy, hleast⟩ := Finset.exists_min_image _ id hne
  obtain ⟨hall, hstands⟩ := Finset.mem_filter.mp hy
  refine ⟨y, hall, ?_, hleast x (Finset.mem_filter.mpr ⟨hx, hself⟩), hstands⟩
  intro hsuperseded
  obtain ⟨-, z, hz, hlt, hzy⟩ := (mem_superseded standsFor).mp hsuperseded
  have hle := hleast z (Finset.mem_filter.mpr ⟨hz, htrans hzy hstands⟩)
  exact absurd hlt (not_lt.mpr hle)

end Fluffi.Systems
