import Fluffi.Systems.Texts

/-! A text that is read line by line. Once a line was not ended by a separator the stream has
failed: the variable that lines are read into keeps its value, and there is no position. So
the reader sees the pieces of the text, and then the last piece that it has read over and
over. -/

namespace Fluffi.Systems

variable {α : Type*}

/-- A text and what is left of it, unless the stream has failed. -/
structure LineStream (α : Type*) where
  text : List α
  left : Option (List α)

namespace LineStream

def ofText (text : List α) : LineStream α := ⟨text, some text⟩

section Read

variable [DecidableEq α] (sep : α)

/-- The next line, into a variable that has a value. -/
def getline (line : List α) (s : LineStream α) : List α × LineStream α :=
  match s.left with
  | none => (line, s)
  | some left =>
    (left.takeWhile (· ≠ sep),
      { s with
        left := match left.dropWhile (· ≠ sep) with
          | [] => none
          | _ :: left => some left })

/-- The position in the text. -/
def tellg (s : LineStream α) : ℤ :=
  match s.left with
  | none => -1
  | some left => s.text.length - left.length

/-- The stream behind `k` lines. -/
def behind (text : List α) (k : ℕ) : LineStream α :=
  ⟨text, if k < (text.splitOn sep).length then
    some ([sep].intercalate ((text.splitOn sep).drop k)) else none⟩

variable {sep} {text line : List α} {k : ℕ}

theorem behind_zero : behind sep text 0 = ofText text := by
  rw [behind, if_pos (List.length_pos_iff.mpr (List.splitOn_ne_nil sep text)), List.drop_zero,
    List.intercalate_splitOn]
  rfl

/-- What a separator, or the end, leaves of the pieces. -/
theorem cut_intercalate {l : List α} (hl : sep ∉ l) (ls : List (List α)) :
    ([sep].intercalate (l :: ls)).takeWhile (· ≠ sep) = l ∧
      ([sep].intercalate (l :: ls)).dropWhile (· ≠ sep) =
        if ls = [] then [] else sep :: [sep].intercalate ls := by
  have hall : ∀ a ∈ l, decide (a ≠ sep) = true := by
    intro a ha
    simpa using fun h : a = sep => hl (h ▸ ha)
  cases ls with
  | nil =>
    rw [List.intercalate_singleton, if_pos rfl]
    exact ⟨List.takeWhile_eq_self_iff.mpr hall, List.dropWhile_eq_nil_iff.mpr hall⟩
  | cons l' ls =>
    rw [List.intercalate_cons_of_ne_nil (List.cons_ne_nil _ _), if_neg (List.cons_ne_nil _ _),
      List.append_assoc, List.takeWhile_append_of_pos hall, List.dropWhile_append_of_pos hall,
      List.singleton_append, List.takeWhile_cons_of_neg (by simp),
      List.dropWhile_cons_of_neg (by simp), List.append_nil]
    exact ⟨rfl, rfl⟩

theorem getline_behind :
    getline sep line (behind sep text k) =
      ((text.splitOn sep)[k]?.getD line, behind sep text (k + 1)) := by
  by_cases hk : k < (text.splitOn sep).length
  · have hdrop := List.drop_eq_getElem_cons hk
    have hcut := cut_intercalate (notMem_of_mem_splitOn (List.getElem_mem hk))
      ((text.splitOn sep).drop (k + 1))
    rw [← hdrop] at hcut
    rw [getline, behind, if_pos hk]
    simp only [hcut.1, hcut.2, List.getElem?_eq_getElem hk, Option.getD_some, behind]
    by_cases hlast : k + 1 < (text.splitOn sep).length
    · rw [if_neg (by rw [List.drop_eq_nil_iff]; omega), if_pos hlast]
    · rw [if_pos (List.drop_eq_nil_iff.mpr (by omega)), if_neg hlast]
  · rw [getline, behind, if_neg hk, List.getElem?_eq_none (by omega), behind, if_neg (by omega)]
    rfl

end Read

/-! ### Lines -/

/-- The lines with their separators. -/
def joined (sep : α) (lines : List (List α)) : List α := lines.flatMap (· ++ [sep])

theorem intercalate_eq_joined {sep : α} {lines : List (List α)} {k : ℕ}
    (hk : k < lines.length) :
    [sep].intercalate lines =
      joined sep (lines.take k) ++ [sep].intercalate (lines.drop k) := by
  induction k generalizing lines with
  | zero => rfl
  | succ k ih =>
    cases lines with
    | nil => cases hk
    | cons l lines =>
      have hk' : k < lines.length := Nat.lt_of_succ_lt_succ hk
      have hne : lines ≠ [] := List.ne_nil_of_length_pos (by omega)
      rw [List.intercalate_cons_of_ne_nil hne, ih hk', List.take_succ_cons, List.drop_succ_cons,
        joined, joined, List.flatMap_cons]
      simp only [List.append_assoc]

variable [DecidableEq α] {sep : α} {text : List α} {k : ℕ}

theorem tellg_behind :
    (behind sep text k).tellg =
      if k < (text.splitOn sep).length then
        ((joined sep ((text.splitOn sep).take k)).length : ℤ)
      else -1 := by
  rw [behind, tellg]
  split
  next hnone =>
    rw [if_neg]
    intro hk
    rw [if_pos hk] at hnone
    cases hnone
  next left hleft =>
    by_cases hk : k < (text.splitOn sep).length
    · rw [if_pos hk] at hleft ⊢
      have hlen := congrArg List.length (@intercalate_eq_joined _ sep _ _ hk)
      rw [List.intercalate_splitOn, List.length_append] at hlen
      dsimp only
      rw [← Option.some.inj hleft, hlen]
      omega
    · rw [if_neg hk] at hleft
      cases hleft

theorem splitOn_joined_append {lines : List (List α)} (h : ∀ l ∈ lines, sep ∉ l)
    (rest : List α) : (joined sep lines ++ rest).splitOn sep = lines ++ rest.splitOn sep := by
  induction lines with
  | nil => rfl
  | cons l lines ih =>
    calc (joined sep (l :: lines) ++ rest).splitOn sep
        = (l ++ sep :: (joined sep lines ++ rest)).splitOn sep := by simp [joined]
      _ = l :: (joined sep lines ++ rest).splitOn sep :=
          List.splitOn_append_cons_self_of_not_mem (h l List.mem_cons_self) _
      _ = l :: lines ++ rest.splitOn sep := by
          rw [ih fun l' hl' => h l' (List.mem_cons_of_mem _ hl'), List.cons_append]

end LineStream

/-! ### A variable that keeps the last line -/

/-- The `k`-th line, or the last one. -/
def lineAt (lines : List (List α)) (k : ℕ) : List α := lines[min k (lines.length - 1)]?.getD []

theorem lineAt_zero (lines : List (List α)) : lineAt lines 0 = lines[0]?.getD [] := by
  rw [lineAt, Nat.zero_min]

theorem lineAt_succ {lines : List (List α)} (h : lines ≠ []) (k : ℕ) :
    lines[k + 1]?.getD (lineAt lines k) = lineAt lines (k + 1) := by
  have hpos : 0 < lines.length := List.length_pos_iff.mpr h
  by_cases hk : k + 1 < lines.length
  · have hmin : min (k + 1) (lines.length - 1) = k + 1 := by omega
    rw [lineAt, lineAt, hmin, List.getElem?_eq_getElem hk]
    rfl
  · have hlast : min k (lines.length - 1) = min (k + 1) (lines.length - 1) := by omega
    rw [lineAt, lineAt, hlast, List.getElem?_eq_none (by omega)]
    rfl

theorem lineAt_append {lines rest : List (List α)} {k : ℕ} (hk : k < lines.length) :
    lineAt (lines ++ rest) k = lines[k] := by
  have hmin : min k ((lines ++ rest).length - 1) = k := by
    rw [List.length_append]
    omega
  rw [lineAt, hmin, List.getElem?_append_left hk, List.getElem?_eq_getElem hk]
  rfl

end Fluffi.Systems
