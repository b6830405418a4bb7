import Mathlib.Data.List.Basic

/-! Slices of a buffer: a part of it is read, overwritten or stored to, and a bound that is out of
range is a panic. A buffer that is filled part by part holds the parts. -/

namespace Fluffi.Systems.Slices

variable {α : Type*}

/-- The elements from `lo` to `hi`. -/
def slice (l : List α) (lo hi : ℕ) : Option (List α) :=
  if lo ≤ hi ∧ hi ≤ l.length then some ((l.take hi).drop lo) else none

/-- Copies to the slice from `lo` to `hi` what fits of the source. -/
def copyTo (l : List α) (lo hi : ℕ) (src : List α) : Option (List α) :=
  if lo ≤ hi ∧ hi ≤ l.length then
    some (l.take lo ++ (src.take (hi - lo) ++ l.drop (lo + min (hi - lo) src.length)))
  else none

/-- Stores elements from `i` on, one after the other. -/
def put (l : List α) (i : ℕ) : List α → Option (List α)
  | [] => some l
  | x :: xs => if i < l.length then put (l.set i x) (i + 1) xs else none

variable {l pre mid post src old : List α} {i n : ℕ}

theorem slice_take (h : n ≤ l.length) : slice l 0 n = some (l.take n) := by
  rw [slice, if_pos ⟨Nat.zero_le n, h⟩, List.drop_zero]

theorem slice_drop (h : n ≤ l.length) : slice l n l.length = some (l.drop n) := by
  rw [slice, if_pos ⟨h, Nat.le_refl _⟩, List.take_length]

theorem slice_eq (hi : i + n ≤ l.length) : slice l i (i + n) = some ((l.drop i).take n) := by
  rw [slice, if_pos ⟨Nat.le_add_right i n, hi⟩, List.drop_take, Nat.add_sub_cancel_left]

theorem drop_length_takeWhile (p : α → Bool) :
    l.drop (l.takeWhile p).length = l.dropWhile p := by
  calc l.drop (l.takeWhile p).length
    _ = (l.takeWhile p ++ l.dropWhile p).drop (l.takeWhile p).length := by
      rw [List.takeWhile_append_dropWhile]
    _ = l.dropWhile p := List.drop_left

/-- A source that is as long as the slice takes its place. -/
theorem copyTo_append (hsrc : src.length = old.length) :
    copyTo (pre ++ (old ++ post)) pre.length (pre.length + old.length) src =
      some (pre ++ (src ++ post)) := by
  rw [copyTo, if_pos (by simp only [List.length_append]; omega), Nat.add_sub_cancel_left, hsrc,
    Nat.min_self, List.take_left, ← hsrc, List.take_length, hsrc, List.drop_length_add_append,
    List.drop_left]

theorem copyTo_length {lo hi : ℕ} (hlo : lo ≤ hi) (hhi : hi ≤ l.length) :
    ∃ l', copyTo l lo hi src = some l' ∧ l'.length = l.length := by
  refine ⟨_, if_pos ⟨hlo, hhi⟩, ?_⟩
  simp only [List.length_append, List.length_take, List.length_drop]
  omega

theorem exists_append (h : n ≤ l.length) : ∃ u v, l = u ++ v ∧ u.length = n :=
  ⟨l.take n, l.drop n, (List.take_append_drop n l).symm, List.length_take_of_le h⟩

/-- A buffer that is filled in two parts. -/
theorem fill_two (h : l.length = pre.length + post.length) :
    (copyTo l 0 pre.length pre).bind (fun l => copyTo l pre.length l.length post) =
      some (pre ++ post) := by
  obtain ⟨u, v, rfl, hu⟩ := exists_append (show pre.length ≤ l.length by omega)
  rw [List.length_append] at h
  have hfirst := @copyTo_append α [] v pre u hu.symm
  have hsecond := @copyTo_append α pre [] post v (by omega)
  simp only [List.nil_append, List.length_nil, Nat.zero_add, hu] at hfirst
  rw [hfirst, Option.bind_some, List.length_append]
  simpa only [List.append_nil] using hsecond

/-- A buffer that is filled in three parts. -/
theorem fill_three (h : l.length = pre.length + (mid.length + post.length)) :
    (copyTo l 0 pre.length pre).bind (fun l =>
      (copyTo l pre.length (pre.length + mid.length) mid).bind fun l =>
        copyTo l (pre.length + mid.length) l.length post) = some (pre ++ (mid ++ post)) := by
  obtain ⟨u, v, rfl, hu⟩ := exists_append (show pre.length ≤ l.length by omega)
  rw [List.length_append] at h
  obtain ⟨w, x, rfl, hw⟩ := exists_append (show mid.length ≤ v.length by omega)
  rw [List.length_append] at h
  have hfirst := @copyTo_append α [] (w ++ x) pre u hu.symm
  have hsecond := @copyTo_append α pre x mid w hw.symm
  have hthird := @copyTo_append α (pre ++ mid) [] post x (by omega)
  simp only [List.nil_append, List.length_nil, Nat.zero_add, hu] at hfirst
  rw [hw] at hsecond
  rw [hfirst, Option.bind_some, hsecond, Option.bind_some]
  simp only [List.length_append, List.append_nil, List.append_assoc] at hthird ⊢
  rw [← Nat.add_assoc, hthird]

theorem put_eq {xs : List α} (h : i + xs.length ≤ l.length) :
    put l i xs = some (l.take i ++ (xs ++ l.drop (i + xs.length))) := by
  induction xs generalizing l i with
  | nil => rw [put, List.nil_append, List.length_nil, Nat.add_zero, List.take_append_drop]
  | cons x xs ih =>
    rw [List.length_cons] at h
    have htake : (l.set i x).take (i + 1) = l.take i ++ [x] := by
      rw [List.take_add_one, List.take_set, List.set_eq_of_length_le
        (by rw [List.length_take]; omega), List.getElem?_set_self (by omega), Option.toList_some]
    have hdrop : (l.set i x).drop (i + 1 + xs.length) = l.drop (i + (xs.length + 1)) := by
      rw [List.drop_set_of_lt (by omega)]
      congr 1
      omega
    rw [put, if_pos (by omega), ih (by rw [List.length_set]; omega), htake, hdrop,
      List.append_assoc, List.singleton_append, List.cons_append, List.length_cons]

/-- A store changes the elements that it is for, and no others. -/
theorem put_spec {xs : List α} (h : i + xs.length ≤ l.length) :
    ∃ l', put l i xs = some l' ∧ l'.length = l.length ∧ (l'.drop i).take xs.length = xs ∧
      ∀ j, ¬(i ≤ j ∧ j < i + xs.length) → l'[j]? = l[j]? := by
  have htake : (l.take i).length = i := List.length_take_of_le (by omega)
  refine ⟨_, put_eq h, ?_, ?_, fun j hj => ?_⟩
  · simp only [List.length_append, List.length_drop, htake]
    omega
  · rw [List.drop_append_of_le_length (Nat.le_of_eq htake.symm),
      List.drop_of_length_le (Nat.le_of_eq htake), List.nil_append,
      List.take_left]
  · rcases Nat.lt_or_ge j i with hlt | hge
    · rw [List.getElem?_append_left (by omega), List.getElem?_take_of_lt hlt]
    · rw [List.getElem?_append_right (by omega), List.getElem?_append_right (by omega),
        List.getElem?_drop, htake]
      congr 1
      omega

/-- What each step of a loop keeps, the loop keeps, and it does not fail if no step does. -/
theorem foldlM_keeps {σ : Type*} {P : σ → Prop} {step : σ → α → Option σ}
    (hstep : ∀ s, P s → ∀ x ∈ l, ∃ s', step s x = some s' ∧ P s') {s : σ} (hs : P s) :
    ∃ s', l.foldlM step s = some s' ∧ P s' := by
  induction l generalizing s with
  | nil => exact ⟨s, rfl, hs⟩
  | cons x l ih =>
    obtain ⟨t, ht, hPt⟩ := hstep s hs x List.mem_cons_self
    obtain ⟨s', hs', hPs'⟩ := ih (fun u hu y hy => hstep u hu y (List.mem_cons_of_mem x hy)) hPt
    exact ⟨s', by rw [List.foldlM_cons, ht, Option.bind_eq_bind, Option.bind_some, hs'], hPs'⟩

theorem mapM_isSome {β : Type*} {f : α → Option β} (h : ∀ x ∈ l, ∃ y, f x = some y) :
    ∃ ys, l.mapM f = some ys ∧ ys.length = l.length := by
  induction l with
  | nil => exact ⟨[], rfl, rfl⟩
  | cons x l ih =>
    rw [List.forall_mem_cons] at h
    obtain ⟨y, hy⟩ := h.1
    obtain ⟨ys, hys, hlength⟩ := ih h.2
    refine ⟨y :: ys, ?_, congrArg Nat.succ hlength⟩
    rw [List.mapM_cons, hy, hys]
    rfl

theorem mapM_spec {β : Type*} {f : α → Option β} {ys : List β} (h : l.mapM f = some ys) :
    (∀ x ∈ l, ∃ y ∈ ys, f x = some y) ∧ ∀ y ∈ ys, ∃ x ∈ l, f x = some y := by
  induction l generalizing ys with
  | nil =>
    obtain rfl := Option.some.inj h
    exact ⟨fun _ hx => absurd hx List.not_mem_nil, fun _ hy => absurd hy List.not_mem_nil⟩
  | cons x l ih =>
    rw [List.mapM_cons, Option.bind_eq_bind, Option.bind_eq_some_iff] at h
    obtain ⟨y, hy, h⟩ := h
    rw [Option.bind_eq_bind, Option.bind_eq_some_iff] at h
    obtain ⟨ys', hys', h⟩ := h
    obtain rfl := Option.some.inj h
    obtain ⟨hfrom, hto⟩ := ih hys'
    rw [List.forall_mem_cons, List.forall_mem_cons]
    refine ⟨⟨⟨y, List.mem_cons_self, hy⟩, fun x' hx' => ?_⟩,
      ⟨x, List.mem_cons_self, hy⟩, fun y' hy' => ?_⟩
    · obtain ⟨y', hy', heq⟩ := hfrom x' hx'
      exact ⟨y', List.mem_cons_of_mem y hy', heq⟩
    · obtain ⟨x', hx', heq⟩ := hto y' hy'
      exact ⟨x', List.mem_cons_of_mem x hx', heq⟩

/-- A loop that overwrites one element after the other. -/
theorem foldlM_length {step : List α → ℕ → Option (List α)} {a : ℕ}
    (hstep : ∀ l i, a ≤ i → i < l.length → ∃ l', step l i = some l' ∧ l'.length = l.length)
    (h : a + n ≤ l.length) :
    ∃ l', (List.range' a n).foldlM step l = some l' ∧ l'.length = l.length := by
  refine @foldlM_keeps _ _ _ (fun l' : List α => l'.length = l.length) step
    (fun l' hl' i hi => ?_) l rfl
  obtain ⟨hai, hin⟩ := List.mem_range'_1.mp hi
  obtain ⟨l'', hl'', hlength⟩ := hstep l' i hai (by omega)
  exact ⟨l'', hl'', hlength.trans hl'⟩

end Fluffi.Systems.Slices
