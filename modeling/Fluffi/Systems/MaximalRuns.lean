import Mathlib.Data.Nat.Find
import Mathlib.Data.Nat.Init
import Mathlib.Data.List.Range
import Mathlib.Order.Basic

/-! Maximal runs of the positions of a text that a machine takes. The machine reads one symbol
after the other; what it has collected when it meets a symbol that it does not take is a run,
and these are all of them. -/

namespace Fluffi.Systems

/-- `[a, b)` is a run of `p` that no longer run contains. -/
structure IsMaximalRun (p : ℕ → Prop) (a b : ℕ) : Prop where
  lt : a < b
  inside : ∀ i, a ≤ i → i < b → p i
  before : ∀ i, i + 1 = a → ¬p i
  after : ¬p b

namespace IsMaximalRun

variable {p q : ℕ → Prop} {a b c d : ℕ}

/-- Between two runs there is a position that belongs to neither of them. -/
theorem stop_lt_start (h : IsMaximalRun p a b) (h' : IsMaximalRun p c d) (hac : a < c) :
    b < c := by
  by_contra hcb
  have hp : p (c - 1) := h.inside _ (by omega) (by omega)
  exact h'.before (c - 1) (by omega) hp

theorem eq_of_mem (h : IsMaximalRun p a b) (h' : IsMaximalRun p c d) {i : ℕ}
    (hi : a ≤ i ∧ i < b) (hi' : c ≤ i ∧ i < d) : a = c ∧ b = d := by
  have hac : a = c := by
    rcases lt_trichotomy a c with hlt | heq | hgt
    · have := h.stop_lt_start h' hlt
      omega
    · exact heq
    · have := h'.stop_lt_start h hgt
      omega
  refine ⟨hac, ?_⟩
  rcases lt_trichotomy b d with hlt | heq | hgt
  · exact absurd (h'.inside b (by omega) hlt) h.after
  · exact heq
  · exact absurd (h.inside d (by omega) hgt) h'.after

theorem stop_unique (h : IsMaximalRun p a b) (h' : IsMaximalRun p a d) : b = d :=
  (h.eq_of_mem h' ⟨le_rfl, h.lt⟩ ⟨le_rfl, h'.lt⟩).2

end IsMaximalRun

/-! ### The run that is open -/

section Trailing

variable (p : ℕ → Prop) [DecidablePred p]

/-- How many positions directly before `n` are taken. -/
def trailing : ℕ → ℕ
  | 0 => 0
  | n + 1 => if p n then trailing n + 1 else 0

theorem trailing_le (n : ℕ) : trailing p n ≤ n := by
  induction n with
  | zero => exact le_rfl
  | succ n ih =>
    rw [trailing]
    split <;> omega

variable {p}

theorem of_mem_trailing {n i : ℕ} (hi : n - trailing p n ≤ i) (hn : i < n) : p i := by
  induction n with
  | zero => omega
  | succ n ih =>
    rw [trailing] at hi
    split at hi
    · rename_i hp
      by_cases hin : i = n
      · exact hin ▸ hp
      · exact ih (by omega) (by omega)
    · omega

theorem not_before_trailing {n i : ℕ} (hi : i + 1 = n - trailing p n) : ¬p i := by
  induction n with
  | zero => omega
  | succ n ih =>
    rw [trailing] at hi
    split at hi
    · exact ih (by omega)
    · rename_i hp
      have hin : i = n := by omega
      exact hin ▸ hp

theorem trailing_eq {a b : ℕ} (hab : a ≤ b) (hin : ∀ i, a ≤ i → i < b → p i)
    (hbefore : ∀ i, i + 1 = a → ¬p i) : trailing p b = b - a := by
  induction b with
  | zero => rw [trailing, Nat.zero_sub]
  | succ b ih =>
    rw [trailing]
    rcases Nat.lt_or_ge b a with hlt | hge
    · rw [if_neg (hbefore b (by omega))]
      omega
    · rw [if_pos (hin b hge (by omega)), ih hge (fun i hi hib => hin i hi (by omega))]
      omega

/-- The runs are what the positions that are not taken find open. -/
theorem isMaximalRun_iff {a b : ℕ} :
    IsMaximalRun p a b ↔ a < b ∧ ¬p b ∧ trailing p b = b - a := by
  constructor
  · intro h
    exact ⟨h.lt, h.after, trailing_eq h.lt.le h.inside h.before⟩
  · rintro ⟨hlt, hafter, htrailing⟩
    have hstart : b - trailing p b = a := by omega
    refine ⟨hlt, fun i hi hib => of_mem_trailing (hstart.symm ▸ hi) hib, ?_, hafter⟩
    exact fun i hi => not_before_trailing (hi.trans hstart.symm)

/-- A taken position lies in a run, if the positions that are taken end somewhere. -/
theorem exists_isMaximalRun {i n : ℕ} (hi : p i) (hn : ∀ j, n ≤ j → ¬p j) :
    ∃ a b, IsMaximalRun p a b ∧ a ≤ i ∧ i < b := by
  have hex : ∃ k, ¬p (i + k) := ⟨n, hn _ (by omega)⟩
  have hstop : ¬p (i + Nat.find hex) := Nat.find_spec hex
  have hup : ∀ j, i ≤ j → j < i + Nat.find hex → p j := by
    intro j hj hjb
    have hmin := Nat.find_min hex (m := j - i) (by omega)
    rw [not_not] at hmin
    rwa [show i + (j - i) = j by omega] at hmin
  have hpos : 0 < Nat.find hex := by
    rw [Nat.find_pos, not_not]
    exact hi
  have hle := trailing_le p i
  refine ⟨i - trailing p i, i + Nat.find hex, ⟨by omega, ?_, ?_, hstop⟩, by omega, by omega⟩
  · intro j hj hjb
    rcases Nat.lt_or_ge j i with hlt | hge
    · exact of_mem_trailing hj hlt
    · exact hup j hge hjb
  · exact fun j hj => not_before_trailing hj

/-- A run of the positions that one machine takes lies in one run of those of another, if that
one takes at least as much. -/
theorem IsMaximalRun.exists_superset {q : ℕ → Prop} [DecidablePred q] {c d n : ℕ}
    (h : IsMaximalRun q c d) (hqp : ∀ i, q i → p i) (hn : ∀ j, n ≤ j → ¬p j) :
    ∃ a b, IsMaximalRun p a b ∧ a ≤ c ∧ d ≤ b := by
  obtain ⟨a, b, hrun, hac, hcb⟩ := exists_isMaximalRun (hqp c (h.inside c le_rfl h.lt)) hn
  refine ⟨a, b, hrun, hac, ?_⟩
  by_contra hbd
  exact hrun.after (hqp b (h.inside b (by omega) (by omega)))

/-! ### The runs that are closed -/

variable (p)

/-- The runs of at least `lim` positions that end before `n`, in the order of their ends. -/
def runsBelow (lim n : ℕ) : List (ℕ × ℕ) :=
  ((List.range n).filter fun e => ¬p e ∧ lim ≤ trailing p e).map fun e => (e - trailing p e, e)

theorem runsBelow_succ (lim n : ℕ) :
    runsBelow p lim (n + 1) = runsBelow p lim n ++
      if ¬p n ∧ lim ≤ trailing p n then [(n - trailing p n, n)] else [] := by
  rw [runsBelow, List.range_succ, List.filter_append, List.map_append, ← runsBelow,
    List.filter_singleton]
  congr 1
  by_cases hn : ¬p n ∧ lim ≤ trailing p n
  · rw [if_pos hn, decide_eq_true hn]
    rfl
  · rw [if_neg hn, decide_eq_false hn]
    rfl

variable {p}

theorem mem_runsBelow {lim n a b : ℕ} (hlim : 1 ≤ lim) :
    (a, b) ∈ runsBelow p lim n ↔ IsMaximalRun p a b ∧ lim ≤ b - a ∧ b < n := by
  rw [runsBelow, List.mem_map, isMaximalRun_iff]
  constructor
  · rintro ⟨e, he, hab⟩
    rw [List.mem_filter, List.mem_range, decide_eq_true_iff] at he
    obtain ⟨hen, hpe, hlen⟩ := he
    rw [Prod.mk.injEq] at hab
    obtain ⟨rfl, rfl⟩ := hab
    have hle := trailing_le p e
    exact ⟨⟨by omega, hpe, by omega⟩, by omega, hen⟩
  · rintro ⟨⟨hlt, hpb, htrailing⟩, hlen, hbn⟩
    refine ⟨b, ?_, by rw [htrailing, show b - (b - a) = a by omega]⟩
    rw [List.mem_filter, List.mem_range, decide_eq_true_iff, htrailing]
    exact ⟨hbn, hpb, hlen⟩

end Trailing

/-! ### Machines -/

/-- Reads symbols, and says of each of them whether it takes it. -/
structure Marker (σ α : Type*) where
  start : σ
  takes : σ → α → Bool
  next : σ → α → σ

namespace Marker

variable {σ α : Type*} (m : Marker σ α) (l : List α)

/-- The state in which the machine reads the symbol at `n`. -/
def stateAt (n : ℕ) : σ := (l.take n).foldl m.next m.start

/-- The machine takes the symbol at `n`. -/
def Takes (n : ℕ) : Prop := (l[n]?).any (m.takes (m.stateAt l n)) = true

instance : DecidablePred (m.Takes l) := fun n =>
  inferInstanceAs (Decidable ((l[n]?).any (m.takes (m.stateAt l n)) = true))

variable {m l} {n : ℕ} {x : α}

theorem stateAt_succ (hx : l[n]? = some x) :
    m.stateAt l (n + 1) = m.next (m.stateAt l n) x := by
  rw [stateAt, List.take_add_one, hx, Option.toList_some, List.foldl_append]
  rfl

theorem takes_iff (hx : l[n]? = some x) : m.Takes l n ↔ m.takes (m.stateAt l n) x = true := by
  rw [Takes, hx, Option.any_some]

theorem not_takes_of_length_le (hn : l.length ≤ n) : ¬m.Takes l n := by
  rw [Takes, List.getElem?_eq_none hn, Option.any_none]
  exact Bool.false_ne_true

theorem lt_length_of_takes (h : m.Takes l n) : n < l.length := by
  by_contra hn
  exact not_takes_of_length_le (by omega) h

theorem stop_le_length {a b : ℕ} (h : IsMaximalRun (m.Takes l) a b) :
    b ≤ l.length := by
  have hlast : m.Takes l (b - 1) := h.inside _ (by have := h.lt; omega) (by have := h.lt; omega)
  have := lt_length_of_takes hlast
  omega

end Marker

end Fluffi.Systems
