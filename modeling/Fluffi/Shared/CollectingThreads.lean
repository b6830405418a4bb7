import Mathlib.Data.Finset.Sort
import Mathlib.Data.String.Basic
import Mathlib.Logic.Function.Basic
import Fluffi.Shared.Strings
import Fluffi.Systems.Run

/-! The set of marked names and the threads that collect. A name leaves the set before its file is
touched, and comes back if the file cannot be removed; in between a thread has it in hand. -/

namespace Fluffi.Shared.CollectingThreads

open Systems

/-- Where a thread is in `collectGarbage`, with the iterations that are left after this one. -/
inductive Place
  | idle
  | loop (left : ℕ)
  | picked (left : ℕ) (fileToDelete : String)
  | found (left : ℕ) (fileToDelete : String)
  | failed (left : ℕ) (fileToDelete : String)
  deriving DecidableEq, Repr

/-- The name that a thread has in hand. -/
def Place.hand : Place → Option String
  | .idle | .loop _ => none
  | .picked _ fileToDelete | .found _ fileToDelete | .failed _ fileToDelete => some fileToDelete

def Place.left : Place → Option ℕ
  | .idle => none
  | .loop left | .picked left _ | .found left _ | .failed left _ => some left

/-- How many steps of a round there are at most from a place. -/
def Place.steps : Place → ℕ
  | .idle | .failed _ _ => 0
  | .loop left => 3 * left + 1
  | .picked left _ => 3 * left + 3
  | .found left _ => 3 * left + 2

structure State where
  m_setOfFilesToDelete : Finset String
  /-- The files that are there. -/
  files : Finset String
  place : ℕ → Place

inductive Action
  | markFileForDelete (fileToDelete : String)
  | startRound
  | getRandomFileToDelete (drawn : ℕ)
  | checkExists
  | remove (succeeds : Bool)
  | markAgain
  | endRound
  deriving DecidableEq, Repr

/-- `static_cast<int>(m_setOfFilesToDelete.size()) * 10`; `none` where it overflows. -/
def iterations (size : ℕ) : Option ℤ := toInt (intOf size * 10)

/-- The name at the place that was drawn from `0` to `static_cast<int>(size) - 1`. -/
def nameAt (m_setOfFilesToDelete : Finset String) (drawn : ℕ) : Option String :=
  if (drawn : ℤ) < intOf m_setOfFilesToDelete.card then
    (m_setOfFilesToDelete.sort (· ≤ ·))[drawn]?
  else none

namespace State

def move (s : State) (i : ℕ) (place : Place) : State :=
  { s with place := Function.update s.place i place }

/-- One step of thread `i`; none where what it does is undefined. -/
def next (s : State) : ℕ × Action → Option State
  | (i, .markFileForDelete fileToDelete) =>
    match s.place i with
    | .idle =>
      some { s with m_setOfFilesToDelete := insert fileToDelete s.m_setOfFilesToDelete }
    | _ => none
  | (i, .startRound) =>
    match s.place i with
    | .idle =>
      (iterations s.m_setOfFilesToDelete.card).map fun n => s.move i (.loop n.toNat)
    | _ => none
  | (i, .getRandomFileToDelete drawn) =>
    match s.place i with
    | .loop (left + 1) =>
      if s.m_setOfFilesToDelete = ∅ then some (s.move i .idle)
      else
        (nameAt s.m_setOfFilesToDelete drawn).map fun fileToDelete =>
          { s with m_setOfFilesToDelete := s.m_setOfFilesToDelete.erase fileToDelete }.move i
            (if fileToDelete = "" then .idle else .picked left fileToDelete)
    | _ => none
  | (i, .checkExists) =>
    match s.place i with
    | .picked left fileToDelete => some (s.move i
        (if fileToDelete ∈ s.files then .found left fileToDelete else .loop left))
    | _ => none
  | (i, .remove succeeds) =>
    match s.place i with
    | .found left fileToDelete =>
      if succeeds ∧ fileToDelete ∈ s.files then
        some ({ s with files := s.files.erase fileToDelete }.move i (.loop left))
      else some (s.move i (.failed left fileToDelete))
    | _ => none
  | (i, .markAgain) =>
    match s.place i with
    | .failed left fileToDelete => some ({ s with
        m_setOfFilesToDelete := insert fileToDelete s.m_setOfFilesToDelete }.move i (.loop left))
    | _ => none
  | (i, .endRound) =>
    match s.place i with
    | .loop 0 => some (s.move i .idle)
    | _ => none

/-! ### What should hold -/

/-- The step is a call of `markFileForDelete`. -/
def Marks (file : String) (s : State) (e : ℕ × Action) : Prop :=
  e.2 = .markFileForDelete file ∨ e.2 = .markAgain ∧ ∃ left, s.place e.1 = .failed left file

/-- The name was in the set at first, or was marked since. -/
def Marked (s : State) (tr : List (State × (ℕ × Action))) (file : String) : Prop :=
  file ∈ s.m_setOfFilesToDelete ∨ ∃ p ∈ tr, Marks file p.1 p.2

/-- A step of a round in which every removal succeeds. -/
def InRound (i : ℕ) (e : ℕ × Action) : Prop :=
  e.1 = i ∧ e.2 ≠ .startRound ∧ (∀ file, e.2 ≠ .markFileForDelete file) ∧ e.2 ≠ .remove false

/-- While no other thread moves, a round of thread `i` comes to its end, and the set is empty
then. -/
def Empties (s : State) (i : ℕ) : Prop :=
  ∃ s₁, next s (i, .startRound) = some s₁ ∧ ∃ bound, ∀ tr t, Run next s₁ tr t →
    (∀ p ∈ tr, InRound i p.2) → tr.length ≤ bound ∧
      (t.place i = .idle → t.m_setOfFilesToDelete = ∅) ∧
      (t.place i ≠ .idle → ∃ e u, InRound i e ∧ next t e = some u)

/-! ### Steps -/

/-- What a step of thread `i` can do. -/
inductive Step (s : State) (i : ℕ) : Action → State → Prop
  | markFileForDelete (file : String) (hplace : s.place i = .idle) :
      Step s i (.markFileForDelete file)
        { s with m_setOfFilesToDelete := insert file s.m_setOfFilesToDelete }
  | startRound {n : ℤ} (hplace : s.place i = .idle)
      (hn : iterations s.m_setOfFilesToDelete.card = some n) :
      Step s i .startRound (s.move i (.loop n.toNat))
  | noFile {left drawn : ℕ} (hplace : s.place i = .loop (left + 1))
      (hempty : s.m_setOfFilesToDelete = ∅) :
      Step s i (.getRandomFileToDelete drawn) (s.move i .idle)
  | pick {left drawn : ℕ} {file : String} (hplace : s.place i = .loop (left + 1))
      (hfile : file ∈ s.m_setOfFilesToDelete) :
      Step s i (.getRandomFileToDelete drawn)
        ({ s with m_setOfFilesToDelete := s.m_setOfFilesToDelete.erase file }.move i
          (if file = "" then .idle else .picked left file))
  | find {left : ℕ} {file : String} (hplace : s.place i = .picked left file)
      (hthere : file ∈ s.files) : Step s i .checkExists (s.move i (.found left file))
  | miss {left : ℕ} {file : String} (hplace : s.place i = .picked left file)
      (hgone : file ∉ s.files) : Step s i .checkExists (s.move i (.loop left))
  | remove {left : ℕ} {file : String} (hplace : s.place i = .found left file)
      (hthere : file ∈ s.files) :
      Step s i (.remove true) ({ s with files := s.files.erase file }.move i (.loop left))
  | fail {left : ℕ} {file : String} {succeeds : Bool} (hplace : s.place i = .found left file)
      (hfail : ¬ (succeeds ∧ file ∈ s.files)) :
      Step s i (.remove succeeds) (s.move i (.failed left file))
  | markAgain {left : ℕ} {file : String} (hplace : s.place i = .failed left file) :
      Step s i .markAgain
        ({ s with m_setOfFilesToDelete := insert file s.m_setOfFilesToDelete }.move i
          (.loop left))
  | endRound (hplace : s.place i = .loop 0) : Step s i .endRound (s.move i .idle)

variable {s t : State} {i j : ℕ} {a : Action} {place : Place} {file : String}

theorem mem_of_nameAt {drawn : ℕ} (h : nameAt s.m_setOfFilesToDelete drawn = some file) :
    file ∈ s.m_setOfFilesToDelete := by
  unfold nameAt at h
  split at h
  · exact (Finset.mem_sort _).mp (List.mem_of_getElem? h)
  · cases h

theorem step_of_next (h : next s (i, a) = some t) : Step s i a t := by
  cases a with
  | markFileForDelete file =>
    simp only [next] at h
    split at h
    case h_1 hplace =>
      cases h
      exact .markFileForDelete file hplace
    · cases h
  | startRound =>
    simp only [next] at h
    split at h
    case h_1 hplace =>
      obtain ⟨n, hn, rfl⟩ := Option.map_eq_some_iff.mp h
      exact .startRound hplace hn
    · cases h
  | getRandomFileToDelete drawn =>
    simp only [next] at h
    split at h
    case h_1 hplace =>
      split at h
      case isTrue hempty =>
        cases h
        exact .noFile hplace hempty
      · obtain ⟨file, hfile, rfl⟩ := Option.map_eq_some_iff.mp h
        exact .pick hplace (mem_of_nameAt hfile)
    · cases h
  | checkExists =>
    simp only [next] at h
    split at h
    case h_1 hplace =>
      cases h
      split
      case isTrue hthere => exact .find hplace hthere
      case isFalse hgone => exact .miss hplace hgone
    · cases h
  | remove succeeds =>
    simp only [next] at h
    split at h
    case h_1 hplace =>
      split at h
      case isTrue hboth =>
        cases h
        obtain ⟨rfl, hthere⟩ := hboth
        exact .remove hplace hthere
      case isFalse hfail =>
        cases h
        exact .fail hplace hfail
    · cases h
  | markAgain =>
    simp only [next] at h
    split at h
    case h_1 hplace =>
      cases h
      exact .markAgain hplace
    · cases h
  | endRound =>
    simp only [next] at h
    split at h
    case h_1 hplace =>
      cases h
      exact .endRound hplace
    · cases h

end State

end Fluffi.Shared.CollectingThreads
