import Mathlib.Data.List.Basic
import Mathlib.Data.List.Infix
import Mathlib.Algebra.Order.Floor.Div

/-! Cutting a list into chunks of a fixed positive size. The empty list still has
one chunk, so the number of chunks is the ceiling of the quotient but never zero. -/

namespace Fluffi.Systems

variable {α : Type*} {C : ℕ}

/-- The elements at the positions from `k * C` up to `(k + 1) * C`. -/
def chunk (C : ℕ) (l : List α) (k : ℕ) : List α := (l.drop (k * C)).take C

def chunkCount (C n : ℕ) : ℕ := max 1 (n ⌈/⌉ C)

theorem chunk_length (l : List α) (k : ℕ) : (chunk C l k).length = min C (l.length - k * C) := by
  simp [chunk]

theorem take_append_chunk (l : List α) (k : ℕ) :
    l.take (k * C) ++ chunk C l k = l.take ((k + 1) * C) := by
  rw [chunk, Nat.succ_mul, List.take_add]

/-- Consecutive chunks from the first one on make up a prefix. -/
theorem flatMap_chunk (l : List α) (m : ℕ) :
    (List.range m).flatMap (chunk C l) = l.take (m * C) := by
  induction m with
  | zero => simp
  | succ m ih =>
    rw [List.range_succ, List.flatMap_append, ih, List.flatMap_singleton, take_append_chunk]

theorem chunkCount_pos (n : ℕ) : 0 < chunkCount C n := lt_max_of_lt_left one_pos

/-- Every chunk after the first begins inside the list. -/
theorem lt_chunkCount (hC : 0 < C) (n k : ℕ) : k < chunkCount C n ↔ k = 0 ∨ k * C < n := by
  have hdiv : k < n ⌈/⌉ C ↔ k * C < n := by
    rw [← not_le, ← not_le, ceilDiv_le_iff_le_mul hC, Nat.mul_comm]
  rw [chunkCount, lt_max_iff, hdiv]
  omega

theorem le_chunkCount_mul (hC : 0 < C) (n : ℕ) : n ≤ chunkCount C n * C := by
  by_contra hlt
  have hself := (lt_chunkCount hC n (chunkCount C n)).mpr (.inr (not_le.mp hlt))
  exact lt_irrefl _ hself

/-- A chunk is followed by another one when more than its end is there. -/
theorem succ_lt_chunkCount (hC : 0 < C) (n k : ℕ) :
    k + 1 < chunkCount C n ↔ (k + 1) * C < n := by
  rw [lt_chunkCount hC]
  simp

/-- All chunks together make up the list. -/
theorem flatMap_chunks (hC : 0 < C) (l : List α) :
    (List.range (chunkCount C l.length)).flatMap (chunk C l) = l := by
  rw [flatMap_chunk]
  exact List.take_of_length_le (le_chunkCount_mul hC l.length)

/-- The first piece and those after it. -/
theorem head_append_flatMap (f : ℕ → List α) (m : ℕ) :
    f 0 ++ (List.range' 1 m).flatMap f = (List.range (m + 1)).flatMap f := by
  rw [List.range_eq_range', List.range'_succ, List.flatMap_cons]

/-- Pieces of known lengths can be told apart in the whole. -/
theorem flatMap_injOn {f g : ℕ → List α} {m : ℕ} (hlen : ∀ k < m, (f k).length = (g k).length)
    (h : (List.range m).flatMap f = (List.range m).flatMap g) : ∀ k < m, f k = g k := by
  induction m with
  | zero => intro k hk; omega
  | succ m ih =>
    simp only [List.range_succ, List.flatMap_append, List.flatMap_singleton] at h
    obtain ⟨hinit, hlast⟩ := List.append_inj' h (hlen m (by omega))
    intro k hk
    by_cases hkm : k = m
    · exact hkm ▸ hlast
    · exact ih (fun j hj => hlen j (by omega)) hinit k (by omega)

/-- A chunk that ends inside a prefix is a chunk of the whole. -/
theorem chunk_prefix {p l : List α} (hp : p <+: l) {k : ℕ} (hk : (k + 1) * C ≤ p.length) :
    chunk C p k = chunk C l k := by
  obtain ⟨rest, rfl⟩ := hp
  have hdrop : k * C ≤ p.length := by
    rw [Nat.succ_mul] at hk
    omega
  rw [chunk, chunk, List.drop_append_of_le_length hdrop, List.take_append_of_le_length]
  rw [List.length_drop]
  rw [Nat.succ_mul] at hk
  omega

end Fluffi.Systems
