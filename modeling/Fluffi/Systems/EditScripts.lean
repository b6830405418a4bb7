import Mathlib.Data.List.Basic
import Mathlib.Data.Nat.Init

/-! Edit scripts between two lists. Each piece of a script is of one of the lists or of both. When
only some pieces are kept, each element that is kept still has positions in the lists. Elements that
come in pairs stay in pairs if the kept pieces are aligned. -/

namespace Fluffi.Systems.EditScripts

inductive Operation where
  | delete
  | insert
  | equal
  deriving DecidableEq

/-- The two lists of a script. -/
inductive Side where
  | first
  | second
  deriving DecidableEq

def Operation.on : Operation → Side → Bool
  | .equal, _ | .delete, .first | .insert, .second => true
  | .delete, .second | .insert, .first => false

structure Piece (α : Type*) where
  type : Operation
  text : List α
  deriving DecidableEq

variable {α : Type*}

/-- A list of the script. -/
def side (s : Side) (ps : List (Piece α)) : List α :=
  (ps.filter fun p => p.type.on s).flatMap Piece.text

/-- The pieces are a script from `x` to `y`. -/
def IsScript (x y : List α) (ps : List (Piece α)) : Prop := side .first ps = x ∧ side .second ps = y

/-- The positions in the lists. -/
abbrev Origin := Side → Option ℕ

def Origin.plus (o : Origin) (n : ℕ) : Origin := fun s => (o s).map (· + n)

/-- Where a piece starts, and how long it is. -/
structure Span where
  start : Origin
  len : ℕ

def Piece.span (p : Piece α) (start : Side → ℕ) : Span :=
  ⟨fun s => if p.type.on s then some (start s) else none, p.text.length⟩

/-- Where the next piece starts. -/
def Piece.after (p : Piece α) (start : Side → ℕ) : Side → ℕ := fun s =>
  if p.type.on s then start s + p.text.length else start s

/-- The elements of the pieces that are kept. -/
def kept (ps : List (Piece α × Bool)) : List α := (ps.filter Prod.snd).flatMap fun p => p.1.text

/-- The spans of the pieces that are kept, but for empty ones. -/
def spans : (Side → ℕ) → List (Piece α × Bool) → List Span
  | _, [] => []
  | start, (p, b) :: ps =>
    if b = true ∧ p.text.length ≠ 0 then p.span start :: spans (p.after start) ps
    else spans (p.after start) ps

/-- The positions of `n` elements from the first on. -/
def places : Origin → ℕ → List Origin
  | _, 0 => []
  | o, n + 1 => o :: places (o.plus 1) n

/-- The positions of the elements that are kept. -/
def origins (ss : List Span) : List Origin := ss.flatMap fun s => places s.start s.len

/-- The two elements of a pair of a list. -/
def Whole (x y : Origin) : Prop := ∃ s p, p % 2 = 0 ∧ x s = some p ∧ y s = some (p + 1)

/-- The elements are pairs; one may wait for the other of its pair. -/
def Paired : Option Origin → List Origin → Prop
  | none, [] => True
  | some _, [] => False
  | none, x :: l => Paired (some x) l
  | some x, y :: l => Whole x y ∧ Paired none l

/-- The kept pieces are aligned, when they come after `off` elements and the last one stops at
`stop`. A piece at an even offset starts at an even position, unless it has one element; a piece at
an odd offset starts at an odd position, where the last one stops; and in the end the offset is
even. -/
def Aligned : ℕ → Origin → List Span → Prop
  | off, _, [] => off % 2 = 0
  | off, stop, s :: ss =>
    (if off % 2 = 0 then 2 ≤ s.len → ∃ x p, p % 2 = 0 ∧ s.start x = some p
      else ∃ x p, p % 2 = 1 ∧ s.start x = some p ∧ stop x = some p) ∧
    Aligned (off + s.len) (s.start.plus s.len) ss

/-! ### Positions -/

section Positions

variable {ps : List (Piece α × Bool)} {o : Origin} {start : Side → ℕ} {n i p : ℕ} {s : Side}

theorem Origin.plus_zero (o : Origin) : o.plus 0 = o := by
  funext s
  exact Option.map_id'

theorem Origin.plus_plus (o : Origin) (n k : ℕ) : (o.plus n).plus k = o.plus (n + k) := by
  funext s
  simp only [Origin.plus, Option.map_map, Function.comp_def, Nat.add_assoc]

theorem places_length (o : Origin) (n : ℕ) : (places o n).length = n := by
  induction n generalizing o with
  | zero => rfl
  | succ n ih => rw [places, List.length_cons, ih]

theorem getElem?_places (h : i < n) : (places o n)[i]? = some (o.plus i) := by
  induction n generalizing o i with
  | zero => exact absurd h (Nat.not_lt_zero i)
  | succ n ih =>
    cases i with
    | zero => rw [places, List.getElem?_cons_zero, Origin.plus_zero]
    | succ i =>
      rw [places, List.getElem?_cons_succ, ih (Nat.lt_of_succ_lt_succ h), Origin.plus_plus,
        Nat.add_comm]

theorem origins_cons (s : Span) (ss : List Span) :
    origins (s :: ss) = places s.start s.len ++ origins ss := List.flatMap_cons

theorem kept_cons (p : Piece α) (b : Bool) (ps : List (Piece α × Bool)) :
    kept ((p, b) :: ps) = (if b then p.text else []) ++ kept ps := by
  cases b with
  | true => rfl
  | false => rfl

theorem side_cons (s : Side) (p : Piece α) (ps : List (Piece α)) :
    side s (p :: ps) = (if p.type.on s then p.text else []) ++ side s ps := by
  rw [side, List.filter_cons]
  split
  · exact List.flatMap_cons
  · rfl

theorem spans_pos {x : Span} (h : x ∈ spans start ps) : 0 < x.len := by
  induction ps generalizing start with
  | nil => exact absurd h List.not_mem_nil
  | cons q ps ih =>
    rw [spans] at h
    split at h
    · rename_i hkept
      rcases List.mem_cons.mp h with rfl | h
      · exact Nat.pos_of_ne_zero hkept.2
      · exact ih h
    · exact ih h

theorem origins_length (start : Side → ℕ) (ps : List (Piece α × Bool)) :
    (origins (spans start ps)).length = (kept ps).length := by
  induction ps generalizing start with
  | nil => rfl
  | cons q ps ih =>
    obtain ⟨q, b⟩ := q
    rw [spans, kept_cons]
    split
    · rename_i hkept
      rw [origins_cons, List.length_append, places_length, ih, if_pos hkept.1, List.length_append]
      rfl
    · rename_i hnot
      rw [ih, List.length_append]
      cases b with
      | false => exact (Nat.zero_add _).symm
      | true =>
        have hempty : q.text.length = 0 := by
          by_contra hne
          exact hnot ⟨rfl, hne⟩
        rw [if_pos rfl, hempty, Nat.zero_add]

/-- An element that is kept is the one at its position. -/
theorem kept_eq_side {pre : Side → List α} (hpre : ∀ s, (pre s).length = start s)
    (ho : (origins (spans start ps))[i]? = some o) (hp : o s = some p) :
    (kept ps)[i]? = (pre s ++ side s (ps.map Prod.fst))[p]? := by
  induction ps generalizing start pre i with
  | nil => exact absurd ho (by rw [spans, origins, List.flatMap_nil, List.getElem?_nil]; nofun)
  | cons q ps ih =>
    obtain ⟨q, b⟩ := q
    have hafter : ∀ s, (pre s ++ if q.type.on s then q.text else []).length = q.after start s := by
      intro s
      rw [List.length_append, hpre, Piece.after]
      split <;> rfl
    change _ = (pre s ++ side s (q :: ps.map Prod.fst))[p]?
    rw [side_cons, kept_cons, ← List.append_assoc]
    rw [spans] at ho
    split at ho
    · rename_i hkept
      rw [if_pos hkept.1]
      rw [origins_cons] at ho
      rcases Nat.lt_or_ge i q.text.length with hlt | hge
      · rw [List.getElem?_append_left (by rw [places_length]; exact hlt),
          getElem?_places (show i < (q.span start).len from hlt), Option.some.injEq] at ho
        subst ho
        obtain ⟨p', hp', rfl⟩ := Option.map_eq_some_iff.mp hp
        simp only [Piece.span] at hp'
        split at hp'
        · rename_i hon
          obtain rfl := Option.some.inj hp'
          rw [if_pos hon, List.getElem?_append_left hlt, List.getElem?_append_left
            (by rw [List.length_append, hpre]; omega), List.getElem?_append_right
            (by rw [hpre]; omega), hpre, Nat.add_sub_cancel_left]
        · cases hp'
      · have hlen : (places (q.span start).start (q.span start).len).length = q.text.length :=
          places_length _ _
        rw [List.getElem?_append_right (by omega), hlen] at ho
        rw [List.getElem?_append_right hge]
        exact ih hafter ho
    · rename_i hnot
      have hnone : (if b then q.text else []) = [] := by
        cases b with
        | false => rfl
        | true =>
          by_contra hne
          exact hnot ⟨rfl, fun h => hne (List.length_eq_zero_iff.mp h)⟩
      rw [hnone, List.nil_append]
      exact ih hafter ho

end Positions

/-! ### Pairs -/

section Pairs

variable {l : List Origin} {o x : Origin} {n : ℕ}

theorem paired_iff : ∀ l : List Origin, Paired none l ↔
    l.length % 2 = 0 ∧ ∀ k x y, l[2 * k]? = some x → l[2 * k + 1]? = some y → Whole x y
  | [] => ⟨fun _ => ⟨rfl, fun k x y hx => by rw [List.getElem?_nil] at hx; cases hx⟩,
      fun _ => trivial⟩
  | [_] => ⟨fun h => h.elim, fun h => absurd h.1 (by simp)⟩
  | a :: b :: l => by
    have ih := paired_iff l
    rw [Paired, Paired, ih, List.length_cons, List.length_cons]
    constructor
    · rintro ⟨hab, hlen, hall⟩
      refine ⟨by omega, fun k x y hx hy => ?_⟩
      cases k with
      | zero =>
        obtain rfl : a = x := Option.some.inj hx
        obtain rfl : b = y := Option.some.inj hy
        exact hab
      | succ k => exact hall k x y hx hy
    · rintro ⟨hlen, hall⟩
      exact ⟨hall 0 a b rfl rfl, by omega, fun k x y hx hy => hall (k + 1) x y hx hy⟩

/-- Elements in a row from an even offset on. -/
theorem paired_places (o : Origin) (n : ℕ) :
    Paired none (places o n ++ l) ↔
      (2 ≤ n → ∃ s p, p % 2 = 0 ∧ o s = some p) ∧
        Paired (if n % 2 = 0 then none else some (o.plus (n - 1))) l := by
  induction n using Nat.twoStepInduction generalizing o with
  | zero => exact ⟨fun h => ⟨fun h2 => absurd h2 (by omega), h⟩, fun h => h.2⟩
  | one =>
    refine ⟨fun h => ⟨fun h2 => absurd h2 (by omega), ?_⟩, fun h => ?_⟩
    · rw [if_neg (by omega), Origin.plus_zero]
      exact h
    · have hpair := h.2
      rw [if_neg (by omega), Origin.plus_zero] at hpair
      exact hpair
  | more n ih _ =>
    have hwhole : Whole o (o.plus 1) ↔ ∃ s p, p % 2 = 0 ∧ o s = some p := by
      constructor
      · rintro ⟨s, p, heven, hp, -⟩
        exact ⟨s, p, heven, hp⟩
      · rintro ⟨s, p, heven, hp⟩
        exact ⟨s, p, heven, hp, by rw [Origin.plus, hp, Option.map_some]⟩
    have htwo : (∃ s p, p % 2 = 0 ∧ o s = some p) → ∃ s p, p % 2 = 0 ∧ (o.plus 2) s = some p := by
      rintro ⟨s, p, heven, hp⟩
      exact ⟨s, p + 2, by omega, by rw [Origin.plus, hp, Option.map_some]⟩
    have hlast : (if (n + 2) % 2 = 0 then none else some (o.plus (n + 2 - 1))) =
        if n % 2 = 0 then none else some ((o.plus 2).plus (n - 1)) := by
      rw [Nat.add_mod_right, Origin.plus_plus]
      by_cases hn : n % 2 = 0
      · rw [if_pos hn, if_pos hn]
      · rw [if_neg hn, if_neg hn, show n + 2 - 1 = 2 + (n - 1) by omega]
    rw [places, places, Origin.plus_plus, List.cons_append, List.cons_append, Paired, Paired,
      hwhole, ih, hlast]
    constructor
    · rintro ⟨hstart, -, hrest⟩
      exact ⟨fun _ => hstart, hrest⟩
    · rintro ⟨hstart, hrest⟩
      exact ⟨hstart (by omega), fun _ => htwo (hstart (by omega)), hrest⟩

/-- Elements in a row from an odd offset on. -/
theorem paired_places_succ (x o : Origin) (n : ℕ) :
    Paired (some x) (places o (n + 1) ++ l) ↔
      Whole x o ∧ Paired (if n % 2 = 0 then none else some (o.plus n)) l := by
  rw [places, List.cons_append, Paired, paired_places, Origin.plus_plus]
  have hlast : (if n % 2 = 0 then none else some (o.plus (1 + (n - 1)))) =
      if n % 2 = 0 then none else some (o.plus n) := by
    by_cases hn : n % 2 = 0
    · rw [if_pos hn, if_pos hn]
    · rw [if_neg hn, if_neg hn, show 1 + (n - 1) = n by omega]
  rw [hlast]
  refine and_congr_right fun ⟨s, p, heven, _, hp⟩ => ⟨fun h => h.2, fun h => ⟨fun _ => ?_, h⟩⟩
  exact ⟨s, p + 2, by omega, by rw [Origin.plus, hp, Option.map_some]⟩

/-- The element that waits at an odd offset is the last one. -/
theorem whole_iff_stop (x o : Origin) :
    Whole x o ↔ ∃ s p, p % 2 = 1 ∧ o s = some p ∧ (x.plus 1) s = some p := by
  constructor
  · rintro ⟨s, p, heven, hx, ho⟩
    exact ⟨s, p + 1, by omega, ho, by rw [Origin.plus, hx, Option.map_some]⟩
  · rintro ⟨s, p, hodd, ho, hx⟩
    obtain ⟨p', hp', rfl⟩ := Option.map_eq_some_iff.mp hx
    exact ⟨s, p', by omega, hp', ho⟩

theorem paired_iff_aligned_from {ss : List Span} (hss : ∀ s ∈ ss, 0 < s.len) (off : ℕ)
    (x : Origin) :
    Paired (if off % 2 = 0 then none else some x) (origins ss) ↔
      Aligned off (x.plus 1) ss := by
  induction ss generalizing off x with
  | nil =>
    rw [Aligned]
    by_cases hoff : off % 2 = 0
    · rw [if_pos hoff]
      exact ⟨fun _ => hoff, fun _ => trivial⟩
    · rw [if_neg hoff]
      exact ⟨fun h => h.elim, fun h => absurd h hoff⟩
  | cons s ss ih =>
    rw [List.forall_mem_cons] at hss
    obtain ⟨n, hn⟩ : ∃ n, s.len = n + 1 := ⟨s.len - 1, by omega⟩
    have hstop : s.start.plus (n + 1) = (s.start.plus n).plus 1 := (Origin.plus_plus _ _ _).symm
    rw [Aligned, origins_cons, hn, hstop, ← ih hss.2]
    by_cases hoff : off % 2 = 0
    · have hparity : (off + (n + 1)) % 2 = 0 ↔ (n + 1) % 2 = 0 := by omega
      rw [if_pos hoff, if_pos hoff, paired_places, Nat.add_sub_cancel]
      simp only [hparity]
    · have hparity : (off + (n + 1)) % 2 = 0 ↔ n % 2 = 0 := by omega
      rw [if_neg hoff, if_neg hoff, paired_places_succ, whole_iff_stop]
      simp only [hparity]

/-- What is kept is in pairs if and only if the kept pieces are aligned. -/
theorem paired_iff_aligned (start : Side → ℕ) (ps : List (Piece α × Bool)) :
    Paired none (origins (spans start ps)) ↔
      Aligned 0 (fun _ => none) (spans start ps) :=
  paired_iff_aligned_from (fun _ h => spans_pos h) 0 fun _ => none

end Pairs

end Fluffi.Systems.EditScripts
