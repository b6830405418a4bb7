import Mathlib.Order.Lattice
import Mathlib.Data.List.Basic

/-! Ranges that lie in a row. The end of one is the start of the next, and ranges that are empty
are anywhere. Two neighbours may move the end between them. -/

namespace Fluffi.Systems.Ranges

variable {α β : Type*} [LinearOrder α]

/-- The ranges go from `a` to `b`. -/
def Tiles (a b : α) : List (α × α) → Prop
  | [] => a = b
  | r :: rs => r.1 = r.2 ∧ Tiles a b rs ∨ r.1 = a ∧ r.1 < r.2 ∧ Tiles r.2 b rs

/-- The ranges at two places, and only empty ones between them. -/
structure Neighbours (l : List (α × α)) (p q : ℕ) (x y : α × α) : Prop where
  lt : p < q
  left : l[p]? = some x
  right : l[q]? = some y
  left_lt : x.1 < x.2
  right_lt : y.1 < y.2
  between : ∀ k r, p < k → k < q → l[k]? = some r → r.1 = r.2

variable {a b : α} {l pre mid post : List (α × α)} {x y r : α × α} {p q : ℕ}

theorem tiles_append : Tiles a b (pre ++ post) ↔ ∃ c, Tiles a c pre ∧ Tiles c b post := by
  induction pre generalizing a with
  | nil => exact ⟨fun h => ⟨a, rfl, h⟩, fun ⟨_, hac, h⟩ => hac ▸ h⟩
  | cons r pre ih =>
    simp only [List.cons_append, Tiles, ih]
    constructor
    · rintro (⟨hr, c, hpre, hpost⟩ | ⟨hr, hlt, c, hpre, hpost⟩)
      · exact ⟨c, .inl ⟨hr, hpre⟩, hpost⟩
      · exact ⟨c, .inr ⟨hr, hlt, hpre⟩, hpost⟩
    · rintro ⟨c, ⟨hr, hpre⟩ | ⟨hr, hlt, hpre⟩, hpost⟩
      · exact .inl ⟨hr, c, hpre, hpost⟩
      · exact .inr ⟨hr, hlt, c, hpre, hpost⟩

theorem tiles_of_empty (hmid : ∀ r ∈ mid, r.1 = r.2) : Tiles a b mid ↔ a = b := by
  induction mid with
  | nil => exact Iff.rfl
  | cons r mid ih =>
    rw [List.forall_mem_cons] at hmid
    rw [Tiles, ih hmid.2]
    constructor
    · rintro (⟨-, h⟩ | ⟨-, hlt, -⟩)
      · exact h
      · exact absurd hmid.1 hlt.ne
    · exact fun h => .inl ⟨hmid.1, h⟩

theorem tiles_cons_of_lt (hr : r.1 < r.2) : Tiles a b (r :: l) ↔ r.1 = a ∧ Tiles r.2 b l := by
  rw [Tiles]
  constructor
  · rintro (⟨heq, -⟩ | ⟨ha, -, h⟩)
    · exact absurd heq hr.ne
    · exact ⟨ha, h⟩
  · exact fun ⟨ha, h⟩ => .inr ⟨ha, hr, h⟩

/-- A range at its place, empty or not. -/
theorem tiles_cons_of_le (hr : r.1 ≤ r.2) (h : Tiles r.2 b l) : Tiles r.1 b (r :: l) := by
  rcases hr.lt_or_eq with hlt | heq
  · exact .inr ⟨rfl, hlt, h⟩
  · exact .inl ⟨heq, heq ▸ h⟩

theorem Tiles.le (h : Tiles a b l) : a ≤ b := by
  induction l generalizing a with
  | nil => exact le_of_eq h
  | cons r l ih =>
    rcases h with ⟨-, h⟩ | ⟨rfl, hlt, h⟩
    · exact ih h
    · exact hlt.le.trans (ih h)

theorem Tiles.inside (h : Tiles a b l) (hr : r ∈ l) (hlt : r.1 < r.2) : a ≤ r.1 ∧ r.2 ≤ b := by
  induction l generalizing a with
  | nil => exact absurd hr List.not_mem_nil
  | cons r' l ih =>
    rcases h with ⟨heq, h⟩ | ⟨rfl, hlt', h⟩
    · rcases List.mem_cons.mp hr with rfl | hr
      · exact absurd heq hlt.ne
      · exact ih h hr
    · rcases List.mem_cons.mp hr with rfl | hr
      · exact ⟨le_refl _, h.le⟩
      · exact ⟨hlt'.le.trans (ih h hr).1, (ih h hr).2⟩

/-- What is between `a` and `b` is in one range, and nothing else is in any. -/
theorem Tiles.countP (h : Tiles a b l) (k : α) :
    l.countP (fun r => r.1 ≤ k ∧ k < r.2) = if a ≤ k ∧ k < b then 1 else 0 := by
  induction l generalizing a with
  | nil =>
    obtain rfl : a = b := h
    rw [List.countP_nil, if_neg fun hk => absurd hk.2 (not_lt.mpr hk.1)]
  | cons r l ih =>
    rw [List.countP_cons]
    rcases h with ⟨hr, h⟩ | ⟨rfl, hlt, h⟩
    · have hnot : ¬(r.1 ≤ k ∧ k < r.2) := fun hk => absurd (hr ▸ hk.2) (not_lt.mpr hk.1)
      rw [ih h, decide_eq_false hnot, if_neg Bool.false_ne_true, Nat.add_zero]
    · rw [ih h]
      have hle := h.le
      rcases lt_or_ge k r.2 with hk | hk
      · have hend : k < b := hk.trans_le hle
        rw [if_neg fun h => absurd h.1 (not_le.mpr hk), Nat.zero_add]
        simp only [hk, hend, and_true, decide_eq_true_eq]
      · have hstart : r.1 ≤ k := hlt.le.trans hk
        simp only [hk, hstart, true_and, not_lt.mpr hk, and_false, decide_false,
          Bool.false_eq_true, if_false, Nat.add_zero]

/-- The empty ranges may go. -/
theorem Tiles.filter (h : Tiles a b l) : Tiles a b (l.filter fun r => r.1 ≠ r.2) := by
  induction l generalizing a with
  | nil => exact h
  | cons r l ih =>
    rcases h with ⟨hr, h⟩ | ⟨ha, hlt, h⟩
    · rw [List.filter_cons_of_neg (by simpa using hr)]
      exact ih h
    · rw [List.filter_cons_of_pos (by simpa using hlt.ne)]
      exact .inr ⟨ha, hlt, ih h⟩

/-- Points that do not descend are the ends of ranges in a row. -/
theorem tiles_range {f : ℕ → α} (hf : ∀ i, f i ≤ f (i + 1)) (k : ℕ) :
    Tiles (f 0) (f k) ((List.range k).map fun i => (f i, f (i + 1))) := by
  induction k with
  | zero => exact rfl
  | succ k ih =>
    rw [List.range_succ, List.map_append]
    exact tiles_append.mpr ⟨f k, ih, tiles_cons_of_le (r := (f k, f (k + 1))) (hf k) rfl⟩

/-! ### Neighbours -/

theorem exists_append_cons {l : List β} {x : β} (h : l[p]? = some x) :
    ∃ pre post, l = pre ++ x :: post ∧ pre.length = p := by
  obtain ⟨hp, hx⟩ := List.getElem?_eq_some_iff.mp h
  exact ⟨l.take p, l.drop (p + 1), by
    rw [← hx, ← List.drop_eq_getElem_cons hp, List.take_append_drop],
    List.length_take_of_le (Nat.le_of_lt hp)⟩

theorem Neighbours.lt_length (h : Neighbours l p q x y) : p < l.length ∧ q < l.length :=
  ⟨(List.getElem?_eq_some_iff.mp h.left).1, (List.getElem?_eq_some_iff.mp h.right).1⟩

theorem Neighbours.split (h : Neighbours l p q x y) :
    ∃ pre mid post, l = pre ++ x :: (mid ++ y :: post) ∧ pre.length = p ∧
      mid.length = q - (p + 1) ∧ ∀ r ∈ mid, r.1 = r.2 := by
  obtain ⟨pre, rest, rfl, hpre⟩ := exists_append_cons h.left
  have hlt := h.lt
  have hright := h.right
  rw [List.getElem?_append_right (by omega), List.getElem?_cons, if_neg (by omega)] at hright
  obtain ⟨mid, post, rfl, hmid⟩ := exists_append_cons hright
  refine ⟨pre, mid, post, rfl, hpre, by omega, fun r hr => ?_⟩
  obtain ⟨k, hk⟩ := List.mem_iff_getElem?.mp hr
  have hkmid := (List.getElem?_eq_some_iff.mp hk).1
  refine h.between (p + (k + 1)) r (by omega) (by omega) ?_
  rw [← hpre, List.getElem?_append_right (by omega), Nat.add_sub_cancel_left,
    List.getElem?_cons_succ, List.getElem?_append_left hkmid, hk]

/-- Neighbours touch, and the end between them may be moved. -/
theorem Tiles.move (h : Tiles a b l) (hn : Neighbours l p q x y) :
    x.2 = y.1 ∧ ∀ z, x.1 ≤ z → z ≤ y.2 →
      Tiles a b ((l.set p (x.1, z)).set q (z, y.2)) := by
  obtain ⟨pre, mid, post, rfl, hpre, hmid, hempty⟩ := hn.split
  have hlt := hn.lt
  obtain ⟨c, hfront, hrest⟩ := tiles_append.mp h
  obtain ⟨rfl, hright⟩ := (tiles_cons_of_lt hn.left_lt).mp hrest
  obtain ⟨d, hbetween, hright⟩ := tiles_append.mp hright
  obtain rfl := (tiles_of_empty hempty).mp hbetween
  obtain ⟨htouch, hend⟩ := (tiles_cons_of_lt hn.right_lt).mp hright
  refine ⟨htouch.symm, fun z hxz hzy => ?_⟩
  rw [List.set_append_right _ _ (by omega), hpre, Nat.sub_self, List.set_cons_zero,
    List.set_append_right _ _ (by omega), hpre, show q - p = mid.length + 1 by omega,
    List.set_cons_succ, List.set_append_right _ _ (Nat.le_refl _), Nat.sub_self,
    List.set_cons_zero]
  have hmoved : Tiles z b (mid ++ (z, y.2) :: post) :=
    tiles_append.mpr ⟨z, (tiles_of_empty hempty).mpr rfl, tiles_cons_of_le hzy hend⟩
  exact tiles_append.mpr ⟨x.1, hfront, tiles_cons_of_le (r := (x.1, z)) hxz hmoved⟩

end Fluffi.Systems.Ranges
