import Mathlib.Data.List.Pairwise
import Fluffi.CaRRoT.Strings

/-! The sweep over the strings that the digesters have found. It drops the string of UTF-8 that is
one of ASCII, and the strings of ASCII inside of one of UTF-8. The strings are looked up by their
positions. -/

namespace Fluffi.CaRRoT

open Fluffi.Systems Fluffi.Shared

/-- The finds of one encoding by their positions. -/
structure Tables where
  aa : List (Option Text)
  au : List (Option Text)

/-- A store beyond the end of a table is a panic. -/
def store (table : List (Option Text)) (el : Text) : Option (List (Option Text)) :=
  if el.pos < table.length then some (table.set el.pos (some el)) else none

def Tables.enter (tables : Tables) (el : Text) : Option Tables :=
  match el.enc with
  | .ascii => (store tables.aa el).map fun aa => { tables with aa := aa }
  | .utf8 => (store tables.au el).map fun au => { tables with au := au }
  | .unicode => some tables

def fillTables (size : ℕ) (ar : List Text) : Option Tables :=
  ar.foldlM Tables.enter ⟨List.replicate size none, List.replicate size none⟩

/-- The entry of a table at a position. -/
def entry (table : List (Option Text)) (i : ℕ) : Option Text := (table[i]?).join

/-- A string of UTF-8, unless it is the string of ASCII at the same position. -/
def undoubled (aa au : Option Text) : Option Text :=
  match aa, au with
  | some a, some u => if u.pos = a.pos ∧ u.len = a.len then none else some u
  | _, au => au

/-- `stop` is the `end` of the source. -/
structure Sweep where
  inside : Bool
  stop : ℕ
  ar : List Text

/-- One round of the loop, at position `i` with its two entries. -/
def Sweep.visit (s : Sweep) (i : ℕ) (aa au : Option Text) : Sweep :=
  let au := undoubled aa au
  let inside := s.inside || au.isSome
  let stop := au.elim s.stop fun u => i + u.len
  let aa := if inside then none else aa
  ⟨inside && i != stop, stop, s.ar ++ (aa.toList ++ au.toList)⟩

def sweep (tables : Tables) (size : ℕ) : Sweep :=
  (List.range size).foldl (fun s i => s.visit i (entry tables.aa i) (entry tables.au i))
    ⟨false, 0, []⟩

/-- `none` is a panic. -/
def minimizeStrings (size : ℕ) (ar : List Text) : Option (List Text) :=
  (fillTables size ar).map fun tables => (sweep tables size).ar

/-! ### Tables -/

/-- The last of the strings of an encoding at a position. -/
def lastAt (enc : Encoding) (i : ℕ) (ar : List Text) : Option Text :=
  (ar.filter fun t => t.enc = enc ∧ t.pos = i).getLast?

theorem lastAt_concat {enc : Encoding} {i : ℕ} {ar : List Text} {el : Text} :
    lastAt enc i (ar ++ [el]) =
      if el.enc = enc ∧ el.pos = i then some el else lastAt enc i ar := by
  rw [lastAt, List.filter_append, List.filter_singleton]
  by_cases hel : el.enc = enc ∧ el.pos = i
  · rw [if_pos hel, decide_eq_true hel]
    exact List.getLast?_concat
  · rw [if_neg hel, decide_eq_false hel, cond_false, List.append_nil]
    rfl

theorem mem_of_lastAt {enc : Encoding} {i : ℕ} {ar : List Text} {t : Text}
    (h : lastAt enc i ar = some t) : t ∈ ar ∧ t.enc = enc := by
  obtain ⟨hmem, henc⟩ := List.mem_filter.mp (List.mem_of_getLast? h)
  rw [decide_eq_true_iff] at henc
  exact ⟨hmem, henc.1⟩

theorem lastAt_eq_some {enc : Encoding} {i : ℕ} {ar : List Text}
    (hunique : ∀ t ∈ ar, ∀ u ∈ ar, t.enc = u.enc → t.pos = u.pos → t = u) {t : Text} :
    lastAt enc i ar = some t ↔ t ∈ ar ∧ t.enc = enc ∧ t.pos = i := by
  rw [lastAt]
  constructor
  · intro h
    simpa using List.mem_filter.mp (List.mem_of_getLast? h)
  · rintro ⟨ht, henc, hpos⟩
    have hmem : t ∈ ar.filter fun t => t.enc = enc ∧ t.pos = i := by
      rw [List.mem_filter]
      exact ⟨ht, by simp [henc, hpos]⟩
    obtain ⟨u, hu⟩ := Option.isSome_iff_exists.mp
      (List.getLast?_isSome.mpr (List.ne_nil_of_mem hmem))
    have humem := List.mem_filter.mp (List.mem_of_getLast? hu)
    have hu' : u.enc = enc ∧ u.pos = i := by simpa using humem.2
    rw [hu, hunique u humem.1 t ht (hu'.1.trans henc.symm) (hu'.2.trans hpos.symm)]

/-- The tables hold for each position the last string of the list. -/
structure Tables.Holds (tables : Tables) (size : ℕ) (ar : List Text) : Prop where
  length_aa : tables.aa.length = size
  length_au : tables.au.length = size
  entry_aa : ∀ i, entry tables.aa i = lastAt .ascii i ar
  entry_au : ∀ i, entry tables.au i = lastAt .utf8 i ar

theorem store_cases {table table' : List (Option Text)} {el : Text}
    (h : store table el = some table') :
    table'.length = table.length ∧
      ∀ i, entry table' i = if el.pos = i then some el else entry table i := by
  rw [store] at h
  split at h
  · rename_i hlt
    rw [Option.some.injEq] at h
    subst h
    refine ⟨List.length_set, fun i => ?_⟩
    rw [entry, List.getElem?_set]
    by_cases hi : el.pos = i
    · rw [if_pos hi, if_pos hlt, if_pos hi]
      rfl
    · rw [if_neg hi, if_neg hi, entry]
  · cases h

theorem store_isSome {table : List (Option Text)} {el : Text} (hlt : el.pos < table.length) :
    ∃ table', store table el = some table' := ⟨_, if_pos hlt⟩

theorem Tables.Holds.enter {tables tables' : Tables} {size : ℕ} {ar : List Text} {el : Text}
    (h : tables.Holds size ar) (henter : tables.enter el = some tables') :
    tables'.Holds size (ar ++ [el]) := by
  rw [Tables.enter] at henter
  cases henc : el.enc with
  | ascii =>
    rw [henc] at henter
    obtain ⟨aa, haa, rfl⟩ := Option.map_eq_some_iff.mp henter
    obtain ⟨hlength, hentry⟩ := store_cases haa
    refine ⟨hlength.trans h.length_aa, h.length_au, fun i => ?_, fun i => ?_⟩
    · rw [hentry, lastAt_concat, henc, h.entry_aa]
      simp only [true_and]
    · rw [lastAt_concat, henc, if_neg fun hne => Encoding.noConfusion hne.1]
      exact h.entry_au i
  | utf8 =>
    rw [henc] at henter
    obtain ⟨au, hau, rfl⟩ := Option.map_eq_some_iff.mp henter
    obtain ⟨hlength, hentry⟩ := store_cases hau
    refine ⟨h.length_aa, hlength.trans h.length_au, fun i => ?_, fun i => ?_⟩
    · rw [lastAt_concat, henc, if_neg fun hne => Encoding.noConfusion hne.1]
      exact h.entry_aa i
    · rw [hentry, lastAt_concat, henc, h.entry_au]
      simp only [true_and]
  | unicode =>
    rw [henc, Option.some.injEq] at henter
    subst henter
    refine ⟨h.length_aa, h.length_au, fun i => ?_, fun i => ?_⟩
    · rw [lastAt_concat, henc, if_neg fun hne => Encoding.noConfusion hne.1]
      exact h.entry_aa i
    · rw [lastAt_concat, henc, if_neg fun hne => Encoding.noConfusion hne.1]
      exact h.entry_au i

theorem Tables.Holds.enter_isSome {tables : Tables} {size : ℕ} {ar : List Text} {el : Text}
    (h : tables.Holds size ar) (hpos : el.pos < size) :
    ∃ tables', tables.enter el = some tables' := by
  rw [Tables.enter]
  cases el.enc with
  | ascii =>
    obtain ⟨aa, haa⟩ := @store_isSome tables.aa _ (h.length_aa.symm ▸ hpos)
    exact ⟨_, by rw [haa, Option.map_some]⟩
  | utf8 =>
    obtain ⟨au, hau⟩ := @store_isSome tables.au _ (h.length_au.symm ▸ hpos)
    exact ⟨_, by rw [hau, Option.map_some]⟩
  | unicode => exact ⟨_, rfl⟩

theorem Tables.holds_nil (size : ℕ) :
    Tables.Holds ⟨List.replicate size none, List.replicate size none⟩ size [] := by
  have hentry : ∀ i, entry (List.replicate size none) i = none := by
    intro i
    rw [entry, List.getElem?_replicate]
    split <;> rfl
  exact ⟨List.length_replicate, List.length_replicate, hentry, hentry⟩

/-- Whatever is stored, the tables are right. -/
theorem fillTables_holds {size : ℕ} {ar : List Text} {tables : Tables}
    (h : fillTables size ar = some tables) : tables.Holds size ar := by
  induction ar using List.reverseRecOn generalizing tables with
  | nil =>
    rw [fillTables, List.foldlM_nil] at h
    cases h
    exact Tables.holds_nil size
  | append_singleton ar el ih =>
    rw [fillTables, List.foldlM_append] at h
    obtain ⟨tables', htables', henter⟩ := Option.bind_eq_some_iff.mp h
    rw [List.foldlM_cons] at henter
    obtain ⟨tables'', henter, hpure⟩ := Option.bind_eq_some_iff.mp henter
    cases hpure
    exact (ih htables').enter henter

theorem fillTables_isSome {size : ℕ} {ar : List Text} (hpos : ∀ t ∈ ar, t.pos < size) :
    ∃ tables, fillTables size ar = some tables := by
  induction ar using List.reverseRecOn with
  | nil => exact ⟨_, rfl⟩
  | append_singleton ar el ih =>
    obtain ⟨tables, htables⟩ := ih fun t ht => hpos t (List.mem_append_left _ ht)
    obtain ⟨tables', henter⟩ := (fillTables_holds htables).enter_isSome
      (hpos el (List.mem_append_right _ (List.mem_singleton_self el)))
    refine ⟨tables', ?_⟩
    rw [fillTables, List.foldlM_append, ← fillTables, htables]
    simp [henter]

/-! ### The sweep -/

theorem undoubled_eq_some {aa au : Option Text} {t : Text} :
    undoubled aa au = some t ↔
      au = some t ∧ ∀ a, aa = some a → ¬(t.pos = a.pos ∧ t.len = a.len) := by
  cases aa with
  | none =>
    rw [undoubled]
    · exact ⟨fun h => ⟨h, fun a ha => absurd ha.symm (Option.some_ne_none a)⟩, fun h => h.1⟩
    · exact fun a u ha => absurd ha.symm (Option.some_ne_none a)
  | some a =>
    cases au with
    | none => exact ⟨fun h => absurd h.symm (Option.some_ne_none t), fun h => h.1⟩
    | some u =>
      rw [undoubled]
      split
      · rename_i hdup
        refine ⟨fun h => absurd h.symm (Option.some_ne_none t), ?_⟩
        rintro ⟨hu, hnot⟩
        rw [Option.some.injEq] at hu
        exact absurd (hu ▸ hdup) (hnot a rfl)
      · rename_i hdup
        constructor
        · intro h
          refine ⟨h, fun a' ha' => ?_⟩
          rw [Option.some.injEq] at h ha'
          rwa [← h, ← ha']
        · exact fun h => h.1

section Sweep

variable (tables : Tables)

/-- The string of UTF-8 that the sweep keeps at a position. -/
def kept (i : ℕ) : Option Text := undoubled (entry tables.aa i) (entry tables.au i)

/-- The strings that are kept do not touch each other. -/
structure Apart : Prop where
  pos_len : ∀ {i u}, kept tables i = some u → 1 ≤ u.len
  apart : ∀ {i j u v}, kept tables i = some u → kept tables j = some v → i < j → i + u.len < j

/-- A string of ASCII at `i` lies inside of a string of UTF-8 that is kept. -/
def Covered (i : ℕ) : Prop := ∃ j u, j ≤ i ∧ kept tables j = some u ∧ i ≤ j + u.len

/-- What the sweep leaves at `i`. -/
def Left (i : ℕ) (t : Text) : Prop :=
  kept tables i = some t ∨ entry tables.aa i = some t ∧ ¬Covered tables i

/-- Where the sweep is when it has visited the positions before `n`. -/
structure Sweep.At (n : ℕ) (s : Sweep) : Prop where
  inside : s.inside = true ↔ ∃ j u, j < n ∧ kept tables j = some u ∧ n ≤ j + u.len
  stop : ∀ j u, j < n → kept tables j = some u → n ≤ j + u.len → s.stop = j + u.len
  mem_ar : ∀ t, t ∈ s.ar ↔ ∃ i < n, Left tables i t
  sorted : s.ar.Pairwise fun t u => ∃ i j, i < j ∧ Left tables i t ∧ Left tables j u

variable {tables} {n : ℕ} {s : Sweep}

theorem Sweep.visit_eq :
    s.visit n (entry tables.aa n) (entry tables.au n) =
      ⟨(s.inside || (kept tables n).isSome) &&
          n != (kept tables n).elim s.stop fun u => n + u.len,
        (kept tables n).elim s.stop fun u => n + u.len,
        s.ar ++ ((if s.inside || (kept tables n).isSome then none
          else entry tables.aa n).toList ++ (kept tables n).toList)⟩ := rfl

theorem Sweep.At.covered_iff (h : s.At tables n) :
    (s.inside || (kept tables n).isSome) = true ↔ Covered tables n := by
  rw [Bool.or_eq_true, h.inside, Option.isSome_iff_exists]
  constructor
  · rintro (⟨j, u, hj, hu, hn⟩ | ⟨u, hu⟩)
    · exact ⟨j, u, hj.le, hu, hn⟩
    · exact ⟨n, u, le_rfl, hu, Nat.le_add_right _ _⟩
  · rintro ⟨j, u, hj, hu, hn⟩
    rcases hj.lt_or_eq with hlt | rfl
    · exact .inl ⟨j, u, hlt, hu, hn⟩
    · exact .inr ⟨u, hu⟩

/-- While a kept string covers a position, the sweep knows its end. -/
theorem Sweep.At.stop_eq (hapart : Apart tables) (h : s.At tables n) {j : ℕ} {u : Text}
    (hj : j ≤ n) (hu : kept tables j = some u) (hn : n ≤ j + u.len) :
    ((kept tables n).elim s.stop fun u => n + u.len) = j + u.len := by
  rcases hj.lt_or_eq with hlt | rfl
  · cases hkept : kept tables n with
    | none => exact h.stop j u hlt hu hn
    | some v =>
      have := hapart.apart hu hkept hlt
      omega
  · rw [hu, Option.elim_some]

theorem Sweep.At.visit_inside (hapart : Apart tables) (h : s.At tables n) :
    (s.visit n (entry tables.aa n) (entry tables.au n)).inside = true ↔
      ∃ j u, j < n + 1 ∧ kept tables j = some u ∧ n + 1 ≤ j + u.len := by
  rw [Sweep.visit_eq]
  simp only [Bool.and_eq_true, h.covered_iff, bne_iff_ne, ne_eq]
  constructor
  · rintro ⟨⟨j, u, hj, hu, hn⟩, hne⟩
    rw [h.stop_eq hapart hj hu hn] at hne
    exact ⟨j, u, by omega, hu, by omega⟩
  · rintro ⟨j, u, hj, hu, hn⟩
    refine ⟨⟨j, u, by omega, hu, by omega⟩, ?_⟩
    rw [h.stop_eq hapart (by omega) hu (by omega)]
    omega

theorem Sweep.At.visit_ar (h : s.At tables n) :
    ∃ ts, (s.visit n (entry tables.aa n) (entry tables.au n)).ar = s.ar ++ ts ∧
      (∀ t, t ∈ ts ↔ Left tables n t) ∧ ts.length ≤ 1 := by
  rw [Sweep.visit_eq]
  refine ⟨_, rfl, ?_, ?_⟩
  · intro t
    rw [List.mem_append, Option.mem_toList, Option.mem_toList, Left, or_comm]
    refine or_congr_right ?_
    by_cases hc : Covered tables n
    · rw [if_pos (h.covered_iff.mpr hc)]
      exact ⟨fun hnone => absurd hnone.symm (Option.some_ne_none t), fun hleft => absurd hc hleft.2⟩
    · rw [if_neg fun hc' => hc (h.covered_iff.mp hc')]
      exact ⟨fun ht => ⟨ht, hc⟩, fun ht => ht.1⟩
  · rw [List.length_append]
    cases hkept : kept tables n with
    | none =>
      simp only [Option.toList_none, List.length_nil, Nat.add_zero]
      exact Option.length_toList_le
    | some u => simp

theorem Sweep.At.visit (hapart : Apart tables) (h : s.At tables n) :
    (s.visit n (entry tables.aa n) (entry tables.au n)).At tables (n + 1) := by
  obtain ⟨ts, har, hts, hlength⟩ := h.visit_ar
  refine ⟨h.visit_inside hapart, ?_, ?_, ?_⟩
  · intro j u hj hu hn
    exact h.stop_eq hapart (Nat.lt_succ_iff.mp hj) hu (by omega)
  · intro t
    rw [har, List.mem_append, h.mem_ar, hts]
    constructor
    · rintro (⟨i, hi, ht⟩ | ht)
      · exact ⟨i, by omega, ht⟩
      · exact ⟨n, by omega, ht⟩
    · rintro ⟨i, hi, ht⟩
      rcases (Nat.lt_succ_iff.mp hi).lt_or_eq with hlt | rfl
      · exact .inl ⟨i, hlt, ht⟩
      · exact .inr ht
  · rw [har, List.pairwise_append]
    refine ⟨h.sorted, ?_, ?_⟩
    · match ts, hlength with
      | [], _ => exact List.Pairwise.nil
      | [t], _ => exact List.pairwise_singleton _ _
    · intro t ht u hu
      obtain ⟨i, hi, hleft⟩ := (h.mem_ar t).mp ht
      exact ⟨i, n, hi, hleft, (hts u).mp hu⟩

theorem sweep_at (hapart : Apart tables) (n : ℕ) : (sweep tables n).At tables n := by
  induction n with
  | zero =>
    refine ⟨?_, ?_, ?_, List.Pairwise.nil⟩
    · exact ⟨fun h => Bool.noConfusion h, fun ⟨j, _, hj, _⟩ => absurd hj (Nat.not_lt_zero j)⟩
    · exact fun j _ hj => absurd hj (Nat.not_lt_zero j)
    · exact fun t => ⟨fun h => absurd h List.not_mem_nil,
        fun ⟨i, hi, _⟩ => absurd hi (Nat.not_lt_zero i)⟩
  | succ n ih =>
    rw [sweep, List.range_succ, List.foldl_append]
    exact ih.visit hapart

/-- The sweep leaves strings from the two tables only. -/
theorem mem_sweep {t : Text} (h : t ∈ (sweep tables n).ar) :
    ∃ i, entry tables.aa i = some t ∨ entry tables.au i = some t := by
  induction n with
  | zero => exact absurd h List.not_mem_nil
  | succ n ih =>
    rw [sweep, List.range_succ, List.foldl_append] at h
    change t ∈ ((sweep tables n).visit n (entry tables.aa n) (entry tables.au n)).ar at h
    rw [Sweep.visit_eq, List.mem_append, List.mem_append, Option.mem_toList,
      Option.mem_toList] at h
    rcases h with h | h | h
    · exact ih h
    · split at h
      · exact absurd h.symm (Option.some_ne_none t)
      · exact ⟨n, .inl h⟩
    · exact ⟨n, .inr (undoubled_eq_some.mp h).1⟩

end Sweep

end Fluffi.CaRRoT
