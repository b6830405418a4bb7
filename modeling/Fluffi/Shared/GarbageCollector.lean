import Mathlib.Logic.Function.Basic
import Mathlib.Order.Lattice
import Fluffi.Systems.Run

/-! The garbage collector and the stores of one file name, cut where another
thread can come in between. The set of marked names and the file system are two
states: a collector takes the name out of the set before it looks at the file. A
mark carries the time it was made at, and the copy on disk the time its store
began at. -/

namespace Fluffi.Shared.GarbageCollector

open Systems

/-! ### Collectors -/

/-- What one round of `collectGarbage` holds of the name: nothing, or the name as
it was taken out of the set, or the name with a file that was found. -/
inductive Hand where
  | free
  | picked (mark : ℕ)
  | found (mark : ℕ)
  deriving DecidableEq, Repr

def Hand.mark : Hand → Option ℕ
  | .free => none
  | .picked mark | .found mark => some mark

/-- The name in `m_setOfFilesToDelete`, with the time of its latest mark. -/
def markFileForDelete (marked : Option ℕ) (time : ℕ) : Option ℕ :=
  some (max (marked.getD time) time)

inductive CollectorStep where
  | getRandomFileToDelete
  | checkExists
  | remove (succeeds : Bool)
  deriving DecidableEq, Repr

/-- A step of `collectGarbage`: is the file there, is the name marked, and what
does the collector hold afterwards? `std::remove` fails on a missing file. -/
def collectGarbage (present : Bool) (marked : Option ℕ) (hand : Hand) :
    CollectorStep → Option (Bool × Option ℕ × Hand)
  | .getRandomFileToDelete =>
    match hand, marked with
    | .free, some mark => some (present, none, .picked mark)
    | _, _ => none
  | .checkExists =>
    match hand with
    | .picked mark => some (present, marked, if present then .found mark else .free)
    | _ => none
  | .remove succeeds =>
    match hand with
    | .found mark =>
      if present && succeeds then some (false, marked, .free)
      else some (present, markFileForDelete marked mark, .free)
    | _ => none

/-- The four ways a round goes on. -/
theorem collectGarbage_cases {present present' : Bool} {marked marked' : Option ℕ}
    {hand hand' : Hand} {step : CollectorStep}
    (h : collectGarbage present marked hand step = some (present', marked', hand')) :
    (∃ mark, hand = .free ∧ marked = some mark ∧
      present' = present ∧ marked' = none ∧ hand' = .picked mark) ∨
    (∃ mark, hand = .picked mark ∧ present' = present ∧ marked' = marked ∧
      hand' = if present then .found mark else .free) ∨
    (∃ mark, hand = .found mark ∧ step = .remove true ∧
      present' = false ∧ marked' = marked ∧ hand' = .free) ∨
    (∃ mark, hand = .found mark ∧ present' = present ∧
      marked' = markFileForDelete marked mark ∧ hand' = .free) := by
  cases step with
  | getRandomFileToDelete =>
    cases hand with
    | free =>
      cases marked with
      | none => cases h
      | some mark =>
        cases h
        exact .inl ⟨mark, rfl, rfl, rfl, rfl, rfl⟩
    | picked mark => cases h
    | found mark => cases h
  | checkExists =>
    cases hand with
    | free => cases h
    | picked mark =>
      cases h
      exact .inr (.inl ⟨mark, rfl, rfl, rfl, rfl⟩)
    | found mark => cases h
  | remove succeeds =>
    cases hand with
    | free => cases h
    | picked mark => cases h
    | found mark =>
      simp only [collectGarbage] at h
      split at h
      case isTrue hboth =>
        cases h
        obtain rfl : succeeds = true := ((Bool.and_eq_true _ _).mp hboth).2
        exact .inr (.inr (.inl ⟨mark, rfl, rfl, rfl, rfl, rfl⟩))
      · cases h
        exact .inr (.inr (.inr ⟨mark, rfl, rfl, rfl, rfl⟩))

/-! ### Stores -/

/-- Where a thread is. A round of the collector is run by its own thread (`none`)
or by a store that waits (`some`, with the time it began at). -/
inductive Place where
  | idle
  | checkMark (began : ℕ)
  | wait (began : ℕ)
  | collecting (hand : Hand) (waiting : Option ℕ)
  | waited (began : ℕ)
  | openFile (began : ℕ)
  | writing (began : ℕ)
  deriving DecidableEq, Repr

def Place.hand : Place → Hand
  | .collecting hand _ => hand
  | _ => .free

/-- When the store of a thread began. -/
def Place.began : Place → Option ℕ
  | .checkMark began | .wait began | .waited began | .openFile began | .writing began => some began
  | .collecting _ waiting => waiting
  | .idle => none

/-- The copy that was stored last: when its store began, and whether it was marked since. -/
structure Copy where
  began : ℕ
  marked : Bool
  deriving DecidableEq, Repr

structure NameState where
  now : ℕ
  present : Bool
  marked : Option ℕ
  copy : Copy
  place : ℕ → Place

inductive Action where
  | markFileForDelete
  | startRound
  | collect (step : CollectorStep)
  | endRound
  /-- `storeTestcaseFileOnDisk` begins: is there a file? -/
  | checkExists
  | isFileMarkedForDeletion
  | waitTurn (m_stopRequested : Bool)
  | checkDeleted
  | openFile (opens : Bool)
  | finish (success : Bool)
  deriving DecidableEq, Repr

namespace NameState

def move (s : NameState) (i : ℕ) (place : Place) : NameState :=
  { s with place := Function.update s.place i place }

/-- One step of thread `i`. -/
def next (s : NameState) : ℕ × Action → Option NameState
  | (i, .markFileForDelete) =>
    match s.place i with
    | .idle => some { s with
        now := s.now + 1
        marked := GarbageCollector.markFileForDelete s.marked s.now
        copy := { s.copy with marked := s.copy.marked || s.present } }
    | _ => none
  | (i, .startRound) =>
    match s.place i with
    | .idle => some (s.move i (.collecting .free none))
    | _ => none
  | (i, .collect step) =>
    match s.place i with
    | .collecting hand waiting =>
      (collectGarbage s.present s.marked hand step).map fun (present, marked, hand) =>
        { s with present := present, marked := marked }.move i (.collecting hand waiting)
    | _ => none
  | (i, .endRound) =>
    match s.place i with
    | .collecting .free none => some (s.move i .idle)
    | .collecting .free (some began) => some (s.move i (.wait began))
    | _ => none
  | (i, .checkExists) =>
    match s.place i with
    | .idle =>
      let s' := { s with now := s.now + 1 }
      some (s'.move i (if s.present then .checkMark s.now else .openFile s.now))
    | _ => none
  | (i, .isFileMarkedForDeletion) =>
    match s.place i with
    | .checkMark began => some (s.move i (if s.marked.isSome then .wait began else .idle))
    | _ => none
  | (i, .waitTurn m_stopRequested) =>
    match s.place i with
    | .wait began => some (s.move i
        (if !m_stopRequested && s.present then .collecting .free (some began) else .waited began))
    | _ => none
  | (i, .checkDeleted) =>
    match s.place i with
    | .waited began => some (s.move i (if s.present then .idle else .openFile began))
    | _ => none
  | (i, .openFile opens) =>
    match s.place i with
    | .openFile began =>
      if opens then
        some ({ s with present := true, copy := ⟨began, false⟩ }.move i (.writing began))
      else some (s.move i .idle)
    | _ => none
  | (i, .finish _) =>
    match s.place i with
    | .writing _ => some (s.move i .idle)
    | _ => none

/-- No thread is at work and nothing is marked. A file may be there. -/
structure Start (s : NameState) : Prop where
  idle : ∀ i, s.place i = .idle
  unmarked : s.marked = none
  fresh : s.copy.marked = false
  began : s.copy.began ≤ s.now

/-! ### What should hold -/

/-- The step removes the copy because of a mark made before its store began. -/
def RemovesNewer (s : NameState) (e : ℕ × Action) : Prop :=
  e.2 = .collect (.remove true) ∧ s.present = true ∧
    ∃ mark waiting, s.place e.1 = .collecting (.found mark) waiting ∧ mark < s.copy.began

/-- The step is the end of a store that returns true. -/
def Returns (began : ℕ) (s : NameState) (e : ℕ × Action) : Prop :=
  e.2 = .finish true ∧ s.place e.1 = .writing began

/-- The step refuses a store because the file is not marked for deletion. -/
def Refuses (s : NameState) (e : ℕ × Action) : Prop :=
  e.2 = .isFileMarkedForDeletion ∧ s.marked = none

/-- Stored copies outlive older marks, and a copy that was marked makes way for the next one. -/
structure Orderly (tr : List (NameState × (ℕ × Action))) : Prop where
  kept : ∀ p ∈ tr, RemovesNewer p.1 p.2 → ∀ q ∈ tr, ¬ Returns p.1.copy.began q.1 q.2
  replaced : ∀ p ∈ tr, Refuses p.1 p.2 → p.1.copy.marked = false

/-- A mark that is in the set or in the hand of a collector. -/
def Pending (s : NameState) (mark : ℕ) : Prop :=
  s.marked = some mark ∨ ∃ i, (s.place i).hand.mark = some mark

/-- A store opens the file when no older mark is pending, and asks for the mark of
a file that is there and in no collector's hand. -/
structure Undisturbed (s : NameState) (e : ℕ × Action) : Prop where
  opens : ∀ began, e.2 = .openFile true → s.place e.1 = .openFile began →
    ∀ mark, s.Pending mark → began ≤ mark
  asks : e.2 = .isFileMarkedForDeletion → s.present = true ∧ ∀ i, (s.place i).hand = .free

end NameState

end Fluffi.Shared.GarbageCollector
