import Mathlib.Data.Fintype.Card
import Mathlib.Data.List.Chain
import Mathlib.Logic.Relation

/-! Walks over finitely many nodes. A walk goes from a node to a next one as long as there is one,
and may choose differently at each place. If the steps have no cycle, it ends before it has met
more nodes than there are. -/

namespace Fluffi.Systems.Forests

open Relation

variable {α : Type*}

def Acyclic (R : α → α → Prop) : Prop := ∀ x, ¬TransGen R x x

/-- The last node of a walk with at most `fuel` nodes, and the one before it. The place of a node
is `k`, and `prev` is before the first one. -/
def follow (f : ℕ → α → Option α) : ℕ → ℕ → Option α → α → Option (Option α × α)
  | 0, _, _, _ => none
  | fuel + 1, k, prev, x =>
    match f k x with
    | none => some (prev, x)
    | some y => follow f fuel (k + 1) (some x) y

variable {R : α → α → Prop} {f : ℕ → α → Option α} {fuel k : ℕ} {prev last : Option α} {x y : α}

theorem Acyclic.swap (h : Acyclic R) : Acyclic (Function.swap R) :=
  fun x hx => h x (transGen_swap.mp hx)

theorem acyclic_of_lt [Preorder α] (h : ∀ x y, R x y → x < y) : Acyclic R := by
  intro x hx
  have hlt : ∀ {a b : α}, TransGen R a b → a < b := by
    intro a b hab
    induction hab with
    | single hab => exact h _ _ hab
    | tail _ hbc ih => exact ih.trans (h _ _ hbc)
  exact lt_irrefl x (hlt hx)

/-- A path without cycles meets no node twice. -/
theorem Acyclic.length_le_card [Fintype α] (h : Acyclic R) {l : List α} (hl : l.IsChain R) :
    l.length ≤ Fintype.card α := by
  have htrans : l.IsChain (TransGen R) := hl.imp fun _ _ => TransGen.single
  have hpair : l.Pairwise (TransGen R) := List.isChain_iff_pairwise.mp htrans
  have hne : ∀ {a b : α}, TransGen R a b → a ≠ b := by
    rintro a b hab rfl
    exact h a hab
  have hnodup : l.Nodup := hpair.imp hne
  exact hnodup.length_le_card

/-- A walk that runs out of fuel has met more nodes. -/
theorem chain_of_follow_eq_none (hf : ∀ k x y, f k x = some y → R x y)
    (h : follow f fuel k prev x = none) :
    ∃ l, l.length = fuel ∧ (x :: l).IsChain R := by
  induction fuel generalizing k prev x with
  | zero => exact ⟨[], rfl, List.isChain_singleton x⟩
  | succ fuel ih =>
    rw [follow] at h
    split at h
    · cases h
    · rename_i y hy
      obtain ⟨l, hlength, hchain⟩ := ih h
      exact ⟨y :: l, congrArg Nat.succ hlength,
        List.isChain_cons_cons.mpr ⟨hf k x y hy, hchain⟩⟩

/-- The fuel of one for each node is enough. -/
theorem Acyclic.follow_isSome [Fintype α] (h : Acyclic R) (hf : ∀ k x y, f k x = some y → R x y)
    (hfuel : Fintype.card α ≤ fuel) (k : ℕ) (prev : Option α) (x : α) :
    ∃ last y, follow f fuel k prev x = some (last, y) := by
  cases heq : follow f fuel k prev x with
  | some p => exact ⟨p.1, p.2, rfl⟩
  | none =>
    obtain ⟨l, hlength, hchain⟩ := chain_of_follow_eq_none hf heq
    have hle := h.length_le_card hchain
    rw [List.length_cons] at hle
    omega

/-- The last node can be reached, and has no next one; the one before it goes to it. -/
theorem follow_spec (hf : ∀ k x y, f k x = some y → R x y)
    (h : follow f fuel k prev x = some (last, y)) :
    ReflTransGen R x y ∧ (∃ k, f k y = none) ∧
      (last = prev ∧ y = x ∨ ∃ z k, last = some z ∧ ReflTransGen R x z ∧ f k z = some y) := by
  induction fuel generalizing k prev x with
  | zero => cases h
  | succ fuel ih =>
    rw [follow] at h
    split at h
    · rename_i hnone
      obtain ⟨rfl, rfl⟩ := Prod.mk.inj (Option.some.inj h)
      exact ⟨.refl, ⟨k, hnone⟩, .inl ⟨rfl, rfl⟩⟩
    · rename_i z hz
      have hstep := hf k x z hz
      obtain ⟨hreach, hend, hlast⟩ := ih h
      refine ⟨.head hstep hreach, hend, .inr ?_⟩
      rcases hlast with ⟨rfl, rfl⟩ | ⟨w, j, rfl, hw, hnext⟩
      · exact ⟨x, k, rfl, .refl, hz⟩
      · exact ⟨w, j, rfl, .head hstep hw, hnext⟩

end Fluffi.Systems.Forests
