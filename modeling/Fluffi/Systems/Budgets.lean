import Fluffi.Systems.Run
import Mathlib.Algebra.BigOperators.Group.List.Basic
import Mathlib.Algebra.Order.Ring.Nat
import Mathlib.Data.Fintype.Card

/-! Counting along runs. If every step pays out of a potential and what it costs is added to
the potential, then a run pays no more than the potential it starts with and its costs. The
potential is often a sum over the entries of a table with a key; a step that concerns one key
changes one summand. -/

namespace Fluffi.Systems

variable {σ ε α κ : Type*} {next : σ → ε → Option σ}

/-- What a run pays is bounded by its first potential and its costs. -/
theorem Run.pays_le (potential : σ → ℕ) (pays costs : σ → ε → ℕ) {G : σ → ε → Prop}
    {I : σ → Prop} {s u : σ} {tr : List (σ × ε)} (hr : Run next s tr u)
    (hG : ∀ p ∈ tr, G p.1 p.2) (h₀ : I s)
    (hstep : ∀ {s e t}, I s → G s e → next s e = some t →
      I t ∧ pays s e + potential t ≤ potential s + costs s e) :
    (tr.map fun p => pays p.1 p.2).sum + potential u ≤
      potential s + (tr.map fun p => costs p.1 p.2).sum := by
  refine (hr.history (G := G)
    (I := fun tr u => I u ∧ (tr.map fun p => pays p.1 p.2).sum + potential u ≤
      potential s + (tr.map fun p => costs p.1 p.2).sum) hG ⟨h₀, by simp⟩ ?_).2
  intro tr s' e t ⟨hI, hle⟩ hg hs
  obtain ⟨hI', hpay⟩ := hstep hI hg hs
  refine ⟨hI', ?_⟩
  simp only [List.map_append, List.map_cons, List.map_nil, List.sum_append, List.sum_cons,
    List.sum_nil]
  omega

section Sums

variable {l : List α} {key : α → κ} {f g : α → ℕ}

theorem sum_map_le_sum_map (h : ∀ a ∈ l, f a ≤ g a) : (l.map f).sum ≤ (l.map g).sum := by
  induction l with
  | nil => exact Nat.le_refl 0
  | cons a l ih =>
    rw [List.forall_mem_cons] at h
    simp only [List.map_cons, List.sum_cons]
    have := ih h.2
    omega

/-- Only the entry of one key may rise. -/
theorem sum_map_le_add (hnodup : (l.map key).Nodup) (k : κ) (c : ℕ)
    (hother : ∀ a ∈ l, key a ≠ k → f a ≤ g a) (hkey : ∀ a ∈ l, key a = k → f a ≤ g a + c) :
    (l.map f).sum ≤ (l.map g).sum + c := by
  induction l with
  | nil => exact Nat.zero_le _
  | cons a l ih =>
    rw [List.forall_mem_cons] at hother hkey
    rw [List.map_cons, List.nodup_cons] at hnodup
    simp only [List.map_cons, List.sum_cons]
    by_cases ha : key a = k
    · have hrest : ∀ b ∈ l, f b ≤ g b := by
        intro b hb
        refine hother.2 b hb ?_
        rintro rfl
        exact hnodup.1 (List.mem_map.mpr ⟨b, hb, ha.symm⟩)
      have := sum_map_le_sum_map hrest
      have := hkey.1 ha
      omega
    · have := ih hnodup.2 hother.2 hkey.2
      have := hother.1 ha
      omega

/-- One entry falls, and no other rises. -/
theorem sum_map_add_one_le {a : α} (ha : a ∈ l) (hfall : f a + 1 ≤ g a)
    (h : ∀ b ∈ l, f b ≤ g b) : (l.map f).sum + 1 ≤ (l.map g).sum := by
  induction l with
  | nil => cases ha
  | cons b l ih =>
    rw [List.forall_mem_cons] at h
    simp only [List.map_cons, List.sum_cons]
    rcases List.mem_cons.mp ha with rfl | ha
    · have := sum_map_le_sum_map h.2
      omega
    · have := ih ha h.2
      have := h.1
      omega

theorem sum_filter_le (p : α → Bool) : ((l.filter p).map f).sum ≤ (l.map f).sum := by
  induction l with
  | nil => exact Nat.le_refl 0
  | cons a l ih =>
    rw [List.filter_cons]
    split
    · simp only [List.map_cons, List.sum_cons]
      omega
    · simp only [List.map_cons, List.sum_cons]
      omega

/-- Every entry rises by no more than the bound. -/
theorem sum_map_le_length_mul (c : ℕ) (h : ∀ a ∈ l, f a ≤ g a + c) :
    (l.map f).sum ≤ (l.map g).sum + l.length * c := by
  induction l with
  | nil => exact Nat.zero_le _
  | cons a l ih =>
    rw [List.forall_mem_cons] at h
    simp only [List.map_cons, List.sum_cons, List.length_cons, Nat.succ_mul]
    have := ih h.2
    have := h.1
    omega

end Sums

/-- Changing a function at one place changes the number of places with a property there only. -/
theorem card_filter_update {ι β : Type*} [Fintype ι] [DecidableEq ι] (f : ι → β) (i : ι) (x : β)
    (P : β → Prop) [DecidablePred P] :
    (Finset.univ.filter fun j => P (Function.update f i x j)).card + (if P (f i) then 1 else 0) =
      (Finset.univ.filter fun j => P (f j)).card + if P x then 1 else 0 := by
  have hsplit : ∀ h : ι → β, (Finset.univ.filter fun j => P (h j)).card =
      (if P (h i) then 1 else 0) + ((Finset.univ.erase i).filter fun j => P (h j)).card := by
    intro h
    rw [← Finset.insert_erase (Finset.mem_univ i), Finset.filter_insert,
      Finset.erase_insert_eq_erase, Finset.erase_idem]
    split
    · rw [Finset.card_insert_of_notMem (by simp), Nat.add_comm]
    · rw [Nat.zero_add]
  have hrest : ((Finset.univ.erase i).filter fun j => P (Function.update f i x j)) =
      (Finset.univ.erase i).filter fun j => P (f j) := by
    apply Finset.filter_congr
    intro j hj
    rw [Function.update_of_ne (Finset.ne_of_mem_erase hj)]
  rw [hsplit (Function.update f i x), hsplit f, hrest, Function.update_self]
  omega

end Fluffi.Systems
