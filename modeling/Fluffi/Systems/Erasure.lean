import Fluffi.Systems.Texts
import Mathlib.Logic.Relation

/-! Erasing a pattern from a list until it is nowhere in it. If no proper part of the pattern
is at both of its ends, two of its places cannot overlap. What is left is then the same in
whatever order the places are erased. -/

namespace Fluffi.Systems

open Relation

variable {α : Type*}

/-- No proper part is at both ends. -/
def Unbordered (pattern : List α) : Prop :=
  ∀ b, b <+: pattern → b <:+ pattern → b = [] ∨ b = pattern

/-- One place of the pattern is erased. -/
def Erases (pattern l l' : List α) : Prop := ∃ u v, l = u ++ (pattern ++ v) ∧ l' = u ++ v

/-- All places are erased, also those that come up when others are. -/
def ErasedTo (pattern l l' : List α) : Prop :=
  ReflTransGen (Erases pattern) l l' ∧ ¬ pattern <:+: l'

variable {pattern : List α}

theorem infix_iff_erases {l : List α} : pattern <:+: l ↔ ∃ l', Erases pattern l l' := by
  constructor
  · rintro ⟨u, v, rfl⟩
    exact ⟨u ++ v, u, v, List.append_assoc _ _ _, rfl⟩
  · rintro ⟨-, u, v, rfl, rfl⟩
    exact ⟨u, v, List.append_assoc _ _ _⟩

/-- A place behind another one, or the same, if it does not begin before it. -/
theorem Unbordered.places (hp : Unbordered pattern) {v w v' : List α}
    (h : pattern ++ v = w ++ (pattern ++ v')) :
    (w = [] ∧ v = v') ∨ ∃ x, w = pattern ++ x ∧ v = x ++ (pattern ++ v') := by
  rcases List.append_eq_append_iff.mp h with ⟨x, rfl, hv⟩ | ⟨x, hx, hpv⟩
  · exact .inr ⟨x, rfl, hv⟩
  · -- the second place begins within the first one
    have hsuffix : x <:+ pattern := ⟨w, hx.symm⟩
    have hprefix : x <+: pattern := by
      refine List.prefix_of_prefix_length_le ⟨v, hpv.symm⟩ (List.prefix_append pattern v') ?_
      exact hsuffix.length_le
    rcases hp x hprefix hsuffix with rfl | rfl
    · rw [List.append_nil] at hx
      exact .inr ⟨[], by simp [hx], by simpa using hpv.symm⟩
    · have hw : w = [] := by
        have := congrArg List.length hx
        rw [List.length_append] at this
        exact List.length_eq_zero_iff.mp (by omega)
      exact .inl ⟨hw, (List.append_cancel_left hpv).symm⟩

theorem Unbordered.meet (hp : Unbordered pattern) {u v w v' : List α}
    (h : pattern ++ v = w ++ (pattern ++ v')) :
    u ++ v = u ++ w ++ v' ∨
      ∃ d, Erases pattern (u ++ v) d ∧ Erases pattern (u ++ w ++ v') d := by
  rcases hp.places h with ⟨rfl, rfl⟩ | ⟨x, rfl, rfl⟩
  · exact .inl (by simp)
  · exact .inr ⟨u ++ x ++ v', ⟨u ++ x, v', by simp, by simp⟩, ⟨u, x ++ v', by simp, by simp⟩⟩

/-- Two places are the same or can be erased one after the other. -/
theorem Unbordered.diamond (hp : Unbordered pattern) {l a b : List α} (ha : Erases pattern l a)
    (hb : Erases pattern l b) : a = b ∨ ∃ d, Erases pattern a d ∧ Erases pattern b d := by
  obtain ⟨u, v, rfl, rfl⟩ := ha
  obtain ⟨u', v', h, rfl⟩ := hb
  rcases List.append_eq_append_iff.mp h with ⟨w, rfl, hw⟩ | ⟨w, rfl, hw⟩
  · exact hp.meet hw
  · rcases hp.meet hw with heq | ⟨d, hd, hd'⟩
    · exact .inl heq.symm
    · exact .inr ⟨d, hd', hd⟩

/-- The order in which the places are erased does not matter. -/
theorem Unbordered.erasedTo_unique (hp : Unbordered pattern) {l a b : List α}
    (ha : ErasedTo pattern l a) (hb : ErasedTo pattern l b) : a = b := by
  have hend {x d : List α} (hx : ¬ pattern <:+: x) (hd : ReflTransGen (Erases pattern) x d) :
      d = x := by
    rcases hd.cases_head with heq | ⟨y, hy, -⟩
    · exact heq.symm
    · exact absurd (infix_iff_erases.mpr ⟨y, hy⟩) hx
  obtain ⟨d, had, hbd⟩ := church_rosser (fun l a b ha hb => by
    rcases hp.diamond ha hb with rfl | ⟨d, hd, hd'⟩
    · exact ⟨a, .refl, .refl⟩
    · exact ⟨d, .single hd, .single hd'⟩) ha.1 hb.1
  exact (hend ha.2 had).symm.trans (hend hb.2 hbd)

section Erase

variable [BEq α] [LawfulBEq α]

/-- Without the first place of the pattern. -/
def eraseFirst (pattern l : List α) : Option (List α) :=
  (findFirst pattern l).map fun rest =>
    l.take (l.length - rest.length) ++ rest.drop pattern.length

theorem prefix_of_findFirst {l rest : List α} (h : findFirst pattern l = some rest) :
    pattern <+: rest :=
  List.isPrefixOf_iff_prefix.mp (List.find?_some h)

theorem erases_eraseFirst {l l' : List α} (h : eraseFirst pattern l = some l') :
    Erases pattern l l' := by
  obtain ⟨rest, hrest, rfl⟩ := Option.map_eq_some_iff.mp h
  obtain ⟨u, rfl⟩ := suffix_of_findFirst hrest
  obtain ⟨v, rfl⟩ := prefix_of_findFirst hrest
  exact ⟨u, v, rfl, by simp⟩

theorem eraseFirst_eq_none {l : List α} : eraseFirst pattern l = none ↔ ¬ pattern <:+: l := by
  rw [eraseFirst, Option.map_eq_none_iff, ← findFirst_isSome_iff, Option.not_isSome_iff_eq_none]

end Erase

end Fluffi.Systems
