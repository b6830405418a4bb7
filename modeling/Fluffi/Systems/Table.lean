import Mathlib.Data.List.Basic
import Mathlib.Data.List.Pairwise

/-! Tables with declared keys. Two rows clash when they agree on a key; a table holds
no two rows that clash, so a table that breaks a key cannot be built. Inserting a row
fails if a row clashes with it, replacing removes the rows that do. -/

namespace Fluffi.Systems

/-- A statement is executed, refused, or executed while its answer is lost. -/
inductive Execution
  | executed
  | refused
  | unanswered
  deriving DecidableEq, Repr

/-- Rows of which no two clash. -/
structure Table {α : Type*} (clash : α → α → Prop) where
  rows : List α
  unique : rows.Pairwise fun a b => ¬clash a b

namespace Table

variable {α : Type*} {clash : α → α → Prop} {t u : Table clash} {a b row : α}

@[ext] theorem ext (h : t.rows = u.rows) : t = u := by
  cases t
  cases u
  cases h
  rfl

def empty : Table clash := ⟨[], .nil⟩

def singleton (row : α) : Table clash := ⟨[row], List.pairwise_singleton _ _⟩

/-- Rows that agree on a key are the same row. -/
theorem eq_of_clash (hsymm : ∀ a b, clash a b → clash b a) (ha : a ∈ t.rows) (hb : b ∈ t.rows)
    (h : clash a b) : a = b := by
  by_contra hne
  have : Std.Symm fun a b => ¬clash a b := ⟨fun a b hab hba => hab (hsymm b a hba)⟩
  exact t.unique.forall ha hb hne h

/-- `DELETE` -/
def delete (t : Table clash) (p : α → Bool) : Table clash :=
  ⟨t.rows.filter fun r => !p r, t.unique.sublist List.filter_sublist⟩

theorem mem_delete {p : α → Bool} : a ∈ (t.delete p).rows ↔ a ∈ t.rows ∧ p a = false := by
  simp [delete]

/-- `UPDATE`: what agrees on a key afterwards has done so before. -/
def update (t : Table clash) (f : α → α) (hf : ∀ a b, clash (f a) (f b) → clash a b) :
    Table clash :=
  ⟨t.rows.map f, List.pairwise_map.mpr (t.unique.imp fun hab h => hab (hf _ _ h))⟩

theorem mem_update {f : α → α} {hf : ∀ a b, clash (f a) (f b) → clash a b} :
    b ∈ (t.update f hf).rows ↔ ∃ a ∈ t.rows, f a = b := by
  simp [update]

variable [DecidableRel clash]

/-- `INSERT`, or none where a key forbids it. -/
def insert (t : Table clash) (row : α) : Option (Table clash) :=
  if h : ∀ r ∈ t.rows, ¬clash r row then
    some ⟨t.rows ++ [row], List.pairwise_append.mpr
      ⟨t.unique, List.pairwise_singleton _ _, fun r hr _ hx => List.mem_singleton.mp hx ▸ h r hr⟩⟩
  else none

theorem insert_eq_some_iff :
    t.insert row = some u ↔ (∀ r ∈ t.rows, ¬clash r row) ∧ u.rows = t.rows ++ [row] := by
  unfold insert
  split
  · rename_i h
    rw [Option.some.injEq]
    exact ⟨fun hu => hu ▸ ⟨h, rfl⟩, fun hu => ext hu.2.symm⟩
  · rename_i h
    exact ⟨nofun, fun hu => absurd hu.1 h⟩

theorem insert_eq_none_iff : t.insert row = none ↔ ∃ r ∈ t.rows, clash r row := by
  unfold insert
  split
  · rename_i h
    simp only [reduceCtorEq, false_iff]
    exact fun ⟨r, hr, hclash⟩ => h r hr hclash
  · rename_i h
    push Not at h
    exact iff_of_true rfl h

/-- `REPLACE` -/
def replace (t : Table clash) (row : α) : Table clash :=
  ⟨t.rows.filter (fun r => ¬clash r row) ++ [row], List.pairwise_append.mpr
    ⟨t.unique.sublist List.filter_sublist, List.pairwise_singleton _ _, fun r hr x hx => by
      rw [List.mem_singleton.mp hx]
      simpa using (List.mem_filter.mp hr).2⟩⟩

theorem mem_replace : a ∈ (t.replace row).rows ↔ (a ∈ t.rows ∧ ¬clash a row) ∨ a = row := by
  simp [replace]

end Table

end Fluffi.Systems
