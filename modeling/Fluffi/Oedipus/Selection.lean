import Fluffi.Oedipus.Merge
import Fluffi.Systems.Forests
import Fluffi.Systems.Run
import Mathlib.Data.Set.Card

/-! The selection of second parents. The interesting testcases are trees below initial ones, and
each mutation takes an initial testcase, or later one at the end of a walk down a tree. The coin
always comes up, so that a testcase that was taken is to be removed. -/

namespace Fluffi.Oedipus

open Relation Fluffi.Systems Fluffi.Systems.Forests Fluffi.Shared

/-- A row of the table of interesting testcases. -/
structure Mutation where
  creatorGUID : String
  creatorLID : ℕ
  parentGUID : String
  parentLID : ℕ
  rawBytes : Bytes
  deriving DecidableEq

def Mutation.creator (m : Mutation) : String × ℕ := (m.creatorGUID, m.creatorLID)

/-- The first testcase that is the parent of another. -/
def findParent (cases : List Mutation) (i : Fin cases.length) : Option (Fin cases.length) :=
  (List.finRange cases.length).find? fun j =>
    cases[j].creatorLID = cases[i].parentLID ∧ cases[j].creatorGUID = cases[i].parentGUID

/-- An initial testcase has no parent. -/
def parentOf (cases : List Mutation) (i : Fin cases.length) : Option (Fin cases.length) :=
  if cases[i].creatorGUID = "initial" then none else findParent cases i

/-- The table. Its creators are a unique key, and no testcase is its own ancestor. -/
structure Testcases where
  cases : List Mutation
  unique : (cases.map Mutation.creator).Nodup
  acyclic : Acyclic fun p i : Fin cases.length => parentOf cases i = some p

abbrev Testcases.Node (t : Testcases) := Fin t.cases.length

/-! ### Trees -/

structure Trees (n : ℕ) where
  initials : List (Fin n)
  parent : Fin n → Option (Fin n)
  children : Fin n → List (Fin n)
  first : Option (Fin n)

namespace Testcases

/-- A testcase is put below its parent. -/
def place (t : Testcases) (gID : String) (lID : ℕ) (s : Trees t.cases.length) (i : t.Node) :
    Trees t.cases.length :=
  if t.cases[i].creatorGUID = "initial" then { s with initials := s.initials ++ [i] }
  else
    let s := { s with
      first := if t.cases[i].creatorLID = lID ∧ t.cases[i].creatorGUID = gID then some i
        else s.first }
    match findParent t.cases i with
    | some j =>
      { s with
        children := Function.update s.children j (s.children j ++ [i])
        parent := Function.update s.parent i (some j) }
    | none => s

def buildTrees (t : Testcases) (gID : String) (lID : ℕ) : Trees t.cases.length :=
  (List.finRange t.cases.length).foldl (t.place gID lID)
    ⟨[], fun _ => none, fun _ => [], none⟩

/-- The root above the given testcase goes, if it is not the only initial one. -/
def filterTrees (t : Testcases) (s : Trees t.cases.length) : Option (List t.Node) :=
  match s.first with
  | none => some s.initials
  | some first =>
    (follow (fun _ => s.parent) t.cases.length 0 none first).map fun root =>
      if s.initials.length > 1 then s.initials.erase root.2 else s.initials

end Testcases

/-! ### The loop -/

/-- The loop before mutation `i`. The targets are those that were logged as selected. -/
structure Selection (n : ℕ) where
  i : ℕ
  initials : List (Fin n)
  children : Fin n → List (Fin n)
  targets : List (Fin n)
  files : List Bytes
  done : Bool

/-- The child that a walk goes to. A number is drawn at each place. -/
def pick {n : ℕ} (draw : ℕ → ℕ) (children : Fin n → List (Fin n)) (k : ℕ) (x : Fin n) :
    Option (Fin n) :=
  match children x with
  | [] => none
  | [c] => some c
  | cs => cs[draw k % cs.length]?

namespace Testcases

def query (t : Testcases) (creator : String × ℕ) : List Bytes :=
  (t.cases.filter fun m => m.creator = creator).map Mutation.rawBytes

/-- Nothing is left to select from if there are no initial testcases any more. -/
def advance (t : Testcases) (s : Selection t.cases.length) (target : t.Node)
    (files : List Bytes) : Selection t.cases.length :=
  { s with
    i := s.i + 1
    targets := s.targets ++ [target]
    files := if s.initials = [] then files.take (s.i + 1) else files
    done := decide (s.initials = []) }

/-- The bytes of a target are loaded. More than one row ends the program. -/
def load (t : Testcases) (s : Selection t.cases.length) (target : t.Node) :
    Option (Selection t.cases.length) :=
  match t.query t.cases[target].creator with
  | [] => some (t.advance s target s.files)
  | [bytes] =>
    if s.i + 1 < s.files.length then some (t.advance s target (s.files.set (s.i + 1) bytes))
    else none
  | _ :: _ :: _ => none

/-- A walk down a tree, from an initial testcase on. -/
def walk (t : Testcases) (s : Selection t.cases.length) (draw : ℕ → ℕ) (root : t.Node) :
    Option (Option t.Node × t.Node) :=
  follow (pick draw s.children) t.cases.length 0 none root

/-- The body of the loop. There is no number modulo zero. -/
def select (t : Testcases) (s : Selection t.cases.length) (draw : ℕ → ℕ) :
    Option (Selection t.cases.length) :=
  if s.i < s.initials.length then (s.initials[s.i]?).bind (t.load s)
  else if s.initials.length = 0 then none
  else
    (s.initials[s.i % s.initials.length]?).bind fun root =>
      (t.walk s draw root).bind fun (last, target) =>
        if target = root then
          t.load { s with initials := s.initials.eraseIdx (s.i % s.initials.length) } target
        else
          last.bind fun last =>
            match s.children last with
            | [] => none
            | _ :: rest => t.load { s with children := Function.update s.children last rest } target

/-- The loop before its first mutation. -/
def start (t : Testcases) (gID : String) (lID : ℕ) (given : Bytes) (numMutations : ℕ) :
    Option (Selection t.cases.length) :=
  (t.filterTrees (t.buildTrees gID lID)).map fun initials =>
    ⟨0, initials, (t.buildTrees gID lID).children, [], given :: List.replicate numMutations [],
      false⟩

end Testcases

/-- Whether there is a mutation to select for. -/
def Selection.Runs {n : ℕ} (s : Selection n) (numMutations : ℕ) : Prop :=
  s.i < numMutations ∧ s.done = false

instance {n : ℕ} (s : Selection n) (numMutations : ℕ) : Decidable (s.Runs numMutations) :=
  inferInstanceAs (Decidable (_ ∧ _))

def Testcases.next (t : Testcases) (numMutations : ℕ) (s : Selection t.cases.length)
    (draw : ℕ → ℕ) : Option (Selection t.cases.length) :=
  if s.Runs numMutations then t.select s draw else none

/-- The pairs of parents that the children are written for. -/
def Selection.merges {n : ℕ} (s : Selection n) : List (Bytes × Bytes) :=
  (s.files.drop 1).map fun file => (s.files.headD [], file)

/-! ### What is expected -/

def Testcases.bytes (t : Testcases) (x : t.Node) : Bytes := t.cases[x].rawBytes

def Testcases.IsParent (t : Testcases) (p x : t.Node) : Prop := parentOf t.cases x = some p

/-- The testcases in the trees below some. -/
def Testcases.trees (t : Testcases) (initials : List t.Node) : Set t.Node :=
  {x | ∃ r ∈ initials, ReflTransGen t.IsParent r x}

/-- The targets differ; and when the loop has ended, each is the second parent of one child, and
their number is the one requested, or all there are. -/
structure Selects (t : Testcases) (given : Bytes) (numMutations : ℕ) (initials : List t.Node)
    (s : Selection t.cases.length) : Prop where
  once : s.targets.Nodup
  loaded : ∀ (j : ℕ) (x : t.Node), s.targets[j]? = some x → s.files[j + 1]? = some (t.bytes x)
  merged : ¬s.Runs numMutations → s.merges = s.targets.map fun x => (given, t.bytes x)
  number : ¬s.Runs numMutations → s.targets.length = min numMutations (t.trees initials).ncard

/-- The step takes an initial testcase that was not taken, or the walk down the tree ends at the
first child of a testcase. -/
def Testcases.FirstChild (t : Testcases) (s : Selection t.cases.length) (draw : ℕ → ℕ) : Prop :=
  s.i < s.initials.length ∨
    ∃ root last leaf, s.initials[s.i % s.initials.length]? = some root ∧
      t.walk s draw root = some (some last, leaf) ∧ (s.children last).head? = some leaf

/-! ### The trees that are built -/

section Build

variable {t : Testcases} {gID : String} {lID : ℕ} {s : Trees t.cases.length} {i j p : t.Node}

/-- What a testcase adds. -/
theorem place_spec (t : Testcases) (gID : String) (lID : ℕ) (s : Trees t.cases.length)
    (i : t.Node) :
    (t.place gID lID s i).initials =
        s.initials ++ [i].filter (fun i => t.cases[i].creatorGUID = "initial") ∧
      (∀ p, (t.place gID lID s i).children p =
        s.children p ++ [i].filter fun i => parentOf t.cases i = some p) ∧
      ∀ x p, (t.place gID lID s i).parent x = some p →
        s.parent x = some p ∨ parentOf t.cases x = some p := by
  rw [Testcases.place]
  by_cases hinitial : t.cases[i].creatorGUID = "initial"
  · have hparent : parentOf t.cases i = none := if_pos hinitial
    rw [if_pos hinitial, List.filter_cons_of_pos (by simpa using hinitial), List.filter_nil]
    refine ⟨rfl, fun p => ?_, fun x p h => .inl h⟩
    rw [List.filter_cons_of_neg (by simp [hparent]), List.filter_nil, List.append_nil]
  · have hparent : parentOf t.cases i = findParent t.cases i := if_neg hinitial
    rw [if_neg hinitial, List.filter_cons_of_neg (by simpa using hinitial), List.filter_nil,
      List.append_nil]
    cases hfind : findParent t.cases i with
    | none =>
      refine ⟨rfl, fun p => ?_, fun x p h => .inl h⟩
      rw [List.filter_cons_of_neg (by simp [hparent, hfind]), List.filter_nil, List.append_nil]
    | some j =>
      refine ⟨rfl, fun p => ?_, fun x p h => ?_⟩
      · by_cases hp : p = j
        · subst hp
          rw [List.filter_cons_of_pos (by simp [hparent, hfind]), List.filter_nil]
          exact Function.update_self ..
        · rw [List.filter_cons_of_neg (by simpa [hparent, hfind] using Ne.symm hp),
            List.filter_nil, List.append_nil]
          exact Function.update_of_ne hp ..
      · change Function.update s.parent i (some j) x = some p at h
        by_cases hx : x = i
        · subst hx
          rw [Function.update_self] at h
          exact .inr ((hparent.trans hfind).trans h)
        · rw [Function.update_of_ne hx] at h
          exact .inl h

theorem foldl_place (l : List t.Node) (s : Trees t.cases.length) :
    (l.foldl (t.place gID lID) s).initials =
        s.initials ++ l.filter (fun i => t.cases[i].creatorGUID = "initial") ∧
      (∀ p, (l.foldl (t.place gID lID) s).children p =
        s.children p ++ l.filter fun i => parentOf t.cases i = some p) ∧
      ∀ x p, (l.foldl (t.place gID lID) s).parent x = some p →
        s.parent x = some p ∨ parentOf t.cases x = some p := by
  induction l generalizing s with
  | nil => exact ⟨(List.append_nil _).symm, fun _ => (List.append_nil _).symm, fun _ _ h => .inl h⟩
  | cons i l ih =>
    obtain ⟨hinitials, hchildren, hparent⟩ := place_spec t gID lID s i
    obtain ⟨ihInitials, ihChildren, ihParent⟩ := ih (t.place gID lID s i)
    rw [List.foldl_cons]
    refine ⟨?_, fun p => ?_, fun x p h => ?_⟩
    · rw [ihInitials, hinitials, List.append_assoc, ← List.filter_append, List.singleton_append]
    · rw [ihChildren, hchildren, List.append_assoc, ← List.filter_append, List.singleton_append]
    · rcases ihParent x p h with h | h
      · exact hparent x p h
      · exact .inr h

theorem buildTrees_initials :
    (t.buildTrees gID lID).initials =
      (List.finRange t.cases.length).filter fun i => t.cases[i].creatorGUID = "initial" :=
  ((foldl_place _ _).1).trans (List.nil_append _)

theorem buildTrees_children (p : t.Node) :
    (t.buildTrees gID lID).children p =
      (List.finRange t.cases.length).filter fun i => parentOf t.cases i = some p :=
  ((foldl_place _ _).2.1 p).trans (List.nil_append _)

theorem buildTrees_parent (h : (t.buildTrees gID lID).parent i = some p) :
    parentOf t.cases i = some p :=
  ((foldl_place _ _).2.2 i p h).resolve_left (Option.some_ne_none p ∘ Eq.symm)

/-- The search for the root ends, and what is left are initial testcases. -/
theorem filterTrees_isSome (t : Testcases) (gID : String) (lID : ℕ) :
    ∃ initials, t.filterTrees (t.buildTrees gID lID) = some initials ∧
      initials.Sublist (t.buildTrees gID lID).initials := by
  rw [Testcases.filterTrees]
  split
  · exact ⟨_, rfl, List.Sublist.refl _⟩
  · rename_i first _
    obtain ⟨last, root, hroot⟩ := t.acyclic.swap.follow_isSome
      (f := fun _ => (t.buildTrees gID lID).parent) (fun _ _ _ h => buildTrees_parent h)
      (Nat.le_of_eq (Fintype.card_fin _)) 0 none first
    refine ⟨_, by rw [hroot, Option.map_some], ?_⟩
    split
    · exact List.erase_sublist
    · exact List.Sublist.refl _

/-- The query for the creator of a testcase yields its bytes. -/
theorem query_creator (t : Testcases) (x : t.Node) :
    t.query t.cases[x].creator = [t.bytes x] := by
  obtain ⟨pre, post, hsplit⟩ := List.append_of_mem (List.getElem_mem x.isLt)
  have hkeys := t.unique
  rw [hsplit, List.map_append, List.map_cons, List.nodup_append, List.nodup_cons] at hkeys
  obtain ⟨-, ⟨hpost, -⟩, hpre⟩ := hkeys
  have hbefore : pre.filter (fun m => m.creator = t.cases[x].creator) = [] := by
    refine List.filter_eq_nil_iff.mpr fun m hm heq => ?_
    exact hpre _ (List.mem_map_of_mem hm) _ List.mem_cons_self (of_decide_eq_true heq)
  have hbehind : post.filter (fun m => m.creator = t.cases[x].creator) = [] := by
    refine List.filter_eq_nil_iff.mpr fun m hm heq => hpost ?_
    exact of_decide_eq_true heq ▸ List.mem_map_of_mem hm
  have hfilter : t.cases.filter (fun m => m.creator = t.cases[x].creator) = [t.cases[x]] := by
    calc t.cases.filter (fun m => m.creator = t.cases[x].creator)
      _ = (pre ++ t.cases[x] :: post).filter (fun m => m.creator = t.cases[x].creator) :=
        congrArg _ hsplit
      _ = [t.cases[x]] := by
        rw [List.filter_append, hbefore, List.filter_cons_of_pos (by simp), hbehind,
          List.nil_append]
  rw [Testcases.query, hfilter]
  rfl

end Build

end Fluffi.Oedipus
