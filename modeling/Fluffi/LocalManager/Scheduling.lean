import Fluffi.Systems.Budgets
import Fluffi.LocalManager.HandOut
import Fluffi.LocalManager.PutTestEvaluation
import Mathlib.Data.Finset.Card
import Mathlib.Data.Fintype.Card

/-! Which testcase is mutated next. The local manager hands out a testcase of the population with
the highest rating, and the generator that mutated it reports how many children it got, which is
taken off the rating. Several generators do so side by side, a generator does not wait for ever
until its report is handled, and evaluations change ratings and add testcases in between. -/

namespace Fluffi.LocalManager

open Shared Systems

/-! ### The generators -/

/-- What a queue filler keeps: the number of children it asks for, and the parent it has. -/
structure QueueFiller where
  m_bulkGenerationSize : ℤ
  m_maxBulkGenerationSize : ℤ
  parentID : Option FluffiTestcaseID

def QueueFiller.new (maxBulkGenerationSize : ℤ) : QueueFiller :=
  ⟨maxBulkGenerationSize, maxBulkGenerationSize, none⟩

/-- What becomes of a report. The generator waits for the answer for ten seconds at most; `accepts`
is what the database does with a report that is handled before it goes on. -/
inductive ReportOutcome where
  | inTime (accepts : Statement → Bool)
  | lost
  | late

/-- How `batchMutate` ends: with an error, or with children, which are reported. -/
inductive BatchOutcome where
  | threw
  | children (size : ℕ) (report : ReportOutcome)

/-- The size of the next batch, after a batch. -/
def QueueFiller.adapt (filler : QueueFiller) : BatchOutcome → ℤ
  | .threw =>
    if filler.m_bulkGenerationSize > 1 then filler.m_bulkGenerationSize - 1
    else filler.m_bulkGenerationSize
  | .children size _ =>
    if size > 0 then
      if filler.m_bulkGenerationSize < filler.m_maxBulkGenerationSize then
        filler.m_bulkGenerationSize + 1
      else filler.m_bulkGenerationSize
    else filler.m_bulkGenerationSize

/-- A report that its generator does not wait for any longer. -/
structure LateReport where
  id : FluffiTestcaseID
  numOfNewMutationsInQueue : ℕ
  deriving DecidableEq

/-- `ReportNewMutationsRequestHandler`: what the report of a batch does to the database. -/
def reportNewMutations (db : LMDatabase) (parentID : FluffiTestcaseID) :
    BatchOutcome → LMDatabase
  | .threw => db
  | .children size report =>
    if size > 0 then
      match report with
      | .inTime accepts => (addDeltaToTestcaseRating accepts db parentID (0 - size)).2
      | .lost | .late => db
    else db

/-- The report that a batch leaves behind. -/
def BatchOutcome.leaves (parentID : FluffiTestcaseID) : BatchOutcome → List LateReport
  | .children size .late => if size > 0 then [⟨parentID, size⟩] else []
  | _ => []

/-! ### The system -/

/-- The row of `SELECT ... WHERE TestCaseType = 0 ORDER BY Rating DESC LIMIT 1`. Which of several
it is among those with the highest rating is not said. -/
def Topmost (db : LMDatabase) (row : InterestingTestcase) : Prop :=
  row ∈ db.interesting_testcases ∧ row.TestCaseType = .Population ∧
    ∀ other ∈ db.interesting_testcases, other.TestCaseType = .Population →
      other.Rating ≤ row.Rating

instance (db : LMDatabase) (row : InterestingTestcase) : Decidable (Topmost db row) :=
  inferInstanceAs (Decidable (_ ∧ _ ∧ _))

structure Scheduling (G : Type*) where
  db : LMDatabase
  fillers : G → QueueFiller
  late : List LateReport

/-- What happens. A generator gets a parent and can store its file or not; it ends a batch; a
late report is handled; an evaluation changes the rating of a parent; a row is inserted, gets
another type or is deleted. -/
inductive SchedulingEvent (G : Type*) where
  | getNewParent (g : G) (row : InterestingTestcase) (fileStored : Bool)
  | batchMutate (g : G) (outcome : BatchOutcome)
  | lateReport (accepts : Statement → Bool) (report : LateReport)
  | addDelta (accepts : Statement → Bool) (parentid : FluffiTestcaseID) (parentratingdelta : ℤ)
  | insert (creator parent : TestcaseKey) (rating : ℤ) (rawBytes : Bytes) (type : TestCaseType)
  | setType (accepts : Statement → Bool) (tcID : FluffiTestcaseID) (tcType : TestCaseType)
  | delete (creator : TestcaseKey)

variable {G : Type*} [DecidableEq G]

namespace Scheduling

def setFiller (s : Scheduling G) (g : G) (filler : QueueFiller) : G → QueueFiller :=
  Function.update s.fillers g filler

def next (s : Scheduling G) : SchedulingEvent G → Option (Scheduling G)
  | .getNewParent g row fileStored =>
    if (s.fillers g).parentID = none ∧ Topmost s.db row then
      let parentID := if fileStored then some row.id else none
      some { s with fillers := s.setFiller g { s.fillers g with parentID := parentID } }
    else none
  | .batchMutate g outcome =>
    (s.fillers g).parentID.map fun parentID =>
      let filler := { s.fillers g with
        m_bulkGenerationSize := (s.fillers g).adapt outcome
        parentID := none }
      ⟨reportNewMutations s.db parentID outcome, s.setFiller g filler,
        s.late ++ outcome.leaves parentID⟩
  | .lateReport accepts report =>
    if report ∈ s.late then
      let delta : ℤ := 0 - report.numOfNewMutationsInQueue
      some { s with
        db := (addDeltaToTestcaseRating accepts s.db report.id delta).2
        late := s.late.erase report }
    else none
  | .addDelta accepts parentid parentratingdelta =>
    some { s with db := (addDeltaToTestcaseRating accepts s.db parentid parentratingdelta).2 }
  | .insert creator parent rating rawBytes type =>
    (s.db.insertInteresting creator parent rating rawBytes type).map fun db => { s with db := db }
  | .setType accepts tcID tcType =>
    some { s with db := (setTestcaseType accepts s.db tcID tcType).2 }
  | .delete creator => some { s with db := s.db.deleteInteresting creator }

/-! ### Ratings -/

/-- The rating of a testcase. -/
def ratingOf (db : LMDatabase) (t : TestcaseKey) : ℤ :=
  ((db.rowsOf t).head?.map (·.Rating)).getD 0

/-- The testcase can be handed out. -/
def InPopulation (db : LMDatabase) (t : TestcaseKey) : Prop :=
  ∃ row ∈ db.interesting_testcases, row.Creator = t ∧ row.TestCaseType = .Population

/-- How many generators are at work on a testcase. -/
def workingOn [Fintype G] (s : Scheduling G) (k : TestcaseKey) : ℕ :=
  (Finset.univ.filter fun g => (s.fillers g).parentID.map (·.key) = some k).card

/-- The event leaves the testcase in the population. -/
def Spares (t : TestcaseKey) : SchedulingEvent G → Prop
  | .setType _ tcID tcType => tcID.key = t → tcType = .Population
  | .delete creator => creator ≠ t
  | _ => True

instance (t : TestcaseKey) (e : SchedulingEvent G) : Decidable (Spares t e) :=
  match e with
  | .setType _ tcID tcType => inferInstanceAs (Decidable (tcID.key = t → tcType = .Population))
  | .delete creator => inferInstanceAs (Decidable (creator ≠ t))
  | .getNewParent _ _ _ | .batchMutate _ _ | .lateReport _ _ | .addDelta _ _ _
  | .insert _ _ _ _ _ => .isTrue trivial

section Ratings

variable {db : LMDatabase} {t : TestcaseKey} {row : InterestingTestcase}

theorem ratingOf_eq (hrow : row ∈ db.interesting_testcases) (ht : row.Creator = t) :
    ratingOf db t = row.Rating := by
  have hmem : row ∈ db.rowsOf t := List.mem_filter.mpr ⟨hrow, by simpa using ht⟩
  rcases db.rowsOf_cases t with hnone | ⟨only, honly⟩
  · rw [hnone] at hmem
    cases hmem
  · rw [honly, List.mem_singleton] at hmem
    rw [ratingOf, honly, hmem]
    rfl

/-- What adding to a rating does to a row. -/
def raise (k : TestcaseKey) (delta : ℤ) (row : InterestingTestcase) : InterestingTestcase :=
  if row.Creator = k then { row with Rating := row.Rating + delta } else row

@[simp] theorem raise_Creator (k : TestcaseKey) (delta : ℤ) (row : InterestingTestcase) :
    (raise k delta row).Creator = row.Creator := by
  simp only [raise]
  split <;> rfl

@[simp] theorem raise_TestCaseType (k : TestcaseKey) (delta : ℤ) (row : InterestingTestcase) :
    (raise k delta row).TestCaseType = row.TestCaseType := by
  simp only [raise]
  split <;> rfl

theorem raise_Rating (k : TestcaseKey) (delta : ℤ) (row : InterestingTestcase) :
    (raise k delta row).Rating = row.Rating + if row.Creator = k then delta else 0 := by
  simp only [raise]
  split
  · rfl
  · rw [Int.add_zero]

theorem raise_zero (k : TestcaseKey) : raise k 0 = id := by
  funext row
  simp only [raise]
  split
  · rw [Int.add_zero]
    rfl
  · rfl

/-- The statement is executed for a delta other than zero that the database accepts. -/
def effective (accepts : Statement → Bool) (delta : ℤ) : ℤ :=
  if accepts .updateRating then delta else 0

theorem addDelta_rows (accepts : Statement → Bool) (db : LMDatabase) (tcID : FluffiTestcaseID)
    (delta : ℤ) :
    (addDeltaToTestcaseRating accepts db tcID delta).2.interesting_testcases =
      db.interesting_testcases.map (raise tcID.key (effective accepts delta)) := by
  simp only [addDeltaToTestcaseRating, effective]
  split_ifs with hzero haccepts haccepts
  · rw [hzero, raise_zero, List.map_id]
  · rw [raise_zero, List.map_id]
  · rfl
  · rw [raise_zero, List.map_id]

/-- The part of the rating that a report takes off. -/
def batchDelta : BatchOutcome → ℤ
  | .threw => 0
  | .children size (.inTime accepts) => effective accepts (0 - size)
  | .children _ _ => 0

theorem reportNewMutations_rows (db : LMDatabase) (parentID : FluffiTestcaseID)
    (outcome : BatchOutcome) :
    (reportNewMutations db parentID outcome).interesting_testcases =
      db.interesting_testcases.map (raise parentID.key (batchDelta outcome)) := by
  cases outcome with
  | threw => rw [reportNewMutations, batchDelta, raise_zero, List.map_id]
  | children size report =>
    cases report with
    | lost | late =>
      simp only [reportNewMutations, batchDelta, raise_zero, List.map_id, ite_self]
    | inTime accepts =>
      simp only [reportNewMutations, batchDelta]
      split
      · exact addDelta_rows accepts db parentID _
      · have hzero : size = 0 := by omega
        have hdelta : effective accepts (0 - (size : ℤ)) = 0 := by
          simp [effective, hzero]
        rw [hdelta, raise_zero, List.map_id]

/-- What setting a type does to a row. -/
def retype (accepts : Statement → Bool) (k : TestcaseKey) (type : TestCaseType)
    (row : InterestingTestcase) : InterestingTestcase :=
  if accepts .updateType = true ∧ row.Creator = k then { row with TestCaseType := type } else row

@[simp] theorem retype_Creator (accepts : Statement → Bool) (k : TestcaseKey) (type : TestCaseType)
    (row : InterestingTestcase) : (retype accepts k type row).Creator = row.Creator := by
  simp only [retype]
  split <;> rfl

@[simp] theorem retype_Rating (accepts : Statement → Bool) (k : TestcaseKey) (type : TestCaseType)
    (row : InterestingTestcase) : (retype accepts k type row).Rating = row.Rating := by
  simp only [retype]
  split <;> rfl

theorem setTestcaseType_rows (accepts : Statement → Bool) (db : LMDatabase)
    (tcID : FluffiTestcaseID) (type : TestCaseType) :
    (setTestcaseType accepts db tcID type).2.interesting_testcases =
      db.interesting_testcases.map (retype accepts tcID.key type) := by
  simp only [setTestcaseType]
  split
  case isTrue haccepts =>
    show db.interesting_testcases.map _ = _
    congr 1
    funext row
    simp only [retype, haccepts, true_and]
  case isFalse hrefuses =>
    have hid : retype accepts tcID.key type = id := by
      funext row
      exact if_neg fun h => hrefuses h.1
    rw [hid, List.map_id]

/-- Ratings change by what is added to them. -/
theorem ratingOf_map {db' : LMDatabase} {k : TestcaseKey} {delta : ℤ}
    (hrows : db'.interesting_testcases = db.interesting_testcases.map (raise k delta))
    (ht : InPopulation db t) :
    ratingOf db' t = (ratingOf db t + if k = t then delta else 0) ∧ InPopulation db' t := by
  obtain ⟨row, hrow, rfl, htype⟩ := ht
  have hmem : raise k delta row ∈ db'.interesting_testcases := by
    rw [hrows]
    exact List.mem_map_of_mem hrow
  refine ⟨?_, _, hmem, raise_Creator _ _ _, by rw [raise_TestCaseType, htype]⟩
  rw [ratingOf_eq hmem (raise_Creator _ _ _), ratingOf_eq hrow rfl, raise_Rating]
  simp only [eq_comm]

end Ratings

/-- What an event adds to the rating of a testcase. -/
def ratingChange (s : Scheduling G) (t : TestcaseKey) : SchedulingEvent G → ℤ
  | .batchMutate g outcome =>
    if (s.fillers g).parentID.map (·.key) = some t then batchDelta outcome else 0
  | .lateReport accepts report =>
    if report.id.key = t then effective accepts (0 - report.numOfNewMutationsInQueue) else 0
  | .addDelta accepts parentid delta => if parentid.key = t then effective accepts delta else 0
  | _ => 0

/-- A row of the testcase that is still in the population afterwards. -/
theorem kept_row {db db' : LMDatabase} {t : TestcaseKey} {row row' : InterestingTestcase}
    (hrow : row ∈ db.interesting_testcases) (hcreator : row.Creator = t)
    (hrow' : row' ∈ db'.interesting_testcases) (hcreator' : row'.Creator = t)
    (htype : row'.TestCaseType = .Population) (hrating : row'.Rating = row.Rating) :
    InPopulation db' t ∧ ratingOf db' t = ratingOf db t + 0 :=
  ⟨⟨row', hrow', hcreator', htype⟩, by
    rw [ratingOf_eq hrow' hcreator', ratingOf_eq hrow hcreator, hrating, Int.add_zero]⟩

/-- A testcase that is spared stays in the population, with its rating changed as said. -/
theorem rating_step {s s' : Scheduling G} {t : TestcaseKey} {e : SchedulingEvent G}
    (ht : InPopulation s.db t) (hspares : Spares t e) (hs : s.next e = some s') :
    InPopulation s'.db t ∧ ratingOf s'.db t = ratingOf s.db t + s.ratingChange t e := by
  cases e with
  | getNewParent g row fileStored =>
    simp only [next, Option.ite_none_right_eq_some, Option.some.injEq] at hs
    obtain ⟨-, rfl⟩ := hs
    exact ⟨ht, (Int.add_zero _).symm⟩
  | batchMutate g outcome =>
    simp only [next, Option.map_eq_some_iff] at hs
    obtain ⟨parentID, hparent, rfl⟩ := hs
    obtain ⟨hrating, hin⟩ := ratingOf_map (reportNewMutations_rows s.db parentID outcome) ht
    refine ⟨hin, hrating.trans ?_⟩
    simp only [ratingChange, hparent, Option.map_some, Option.some.injEq]
  | lateReport accepts report =>
    simp only [next, Option.ite_none_right_eq_some, Option.some.injEq] at hs
    obtain ⟨-, rfl⟩ := hs
    obtain ⟨hrating, hin⟩ := ratingOf_map (addDelta_rows accepts s.db report.id _) ht
    exact ⟨hin, hrating⟩
  | addDelta accepts parentid delta =>
    simp only [next, Option.some.injEq] at hs
    subst hs
    obtain ⟨hrating, hin⟩ := ratingOf_map (addDelta_rows accepts s.db parentid delta) ht
    exact ⟨hin, hrating⟩
  | insert creator parent rating rawBytes type =>
    simp only [next, Option.map_eq_some_iff, LMDatabase.insertInteresting,
      Option.dite_none_right_eq_some, Option.some.injEq] at hs
    obtain ⟨db, ⟨hnew, rfl⟩, rfl⟩ := hs
    obtain ⟨row, hrow, hcreator, htype⟩ := ht
    exact kept_row hrow hcreator (List.mem_append_left _ hrow) hcreator htype rfl
  | setType accepts tcID tcType =>
    simp only [next, Option.some.injEq] at hs
    subst hs
    obtain ⟨row, hrow, hcreator, htype⟩ := ht
    have hmem : retype accepts tcID.key tcType row ∈
        (setTestcaseType accepts s.db tcID tcType).2.interesting_testcases := by
      rw [setTestcaseType_rows]
      exact List.mem_map_of_mem hrow
    refine kept_row hrow hcreator hmem (by simpa) ?_ (by simp)
    · simp only [retype]
      split
      case isTrue h => exact hspares (h.2.symm.trans hcreator)
      case isFalse => exact htype
  | delete creator =>
    simp only [next, Option.some.injEq] at hs
    subst hs
    obtain ⟨row, hrow, hcreator, htype⟩ := ht
    refine kept_row hrow hcreator (List.mem_filter.mpr ⟨hrow, ?_⟩) hcreator htype rfl
    rw [hcreator, decide_eq_true_eq]
    exact Ne.symm hspares

/-! ### Generators at work -/

/-- A filler's parent changes: who is at work on what. -/
theorem workingOn_setFiller [Fintype G] (s : Scheduling G) (db : LMDatabase)
    (late : List LateReport) (g : G) (filler : QueueFiller) (k : TestcaseKey) :
    (⟨db, s.setFiller g filler, late⟩ : Scheduling G).workingOn k +
        (if (s.fillers g).parentID.map (·.key) = some k then 1 else 0) =
      s.workingOn k + if filler.parentID.map (·.key) = some k then 1 else 0 :=
  card_filter_update s.fillers g filler fun f => f.parentID.map (·.key) = some k

omit [DecidableEq G] in
theorem workingOn_le [Fintype G] (s : Scheduling G) (k : TestcaseKey) :
    s.workingOn k ≤ Fintype.card G :=
  Finset.card_le_univ _

end Scheduling

end Fluffi.LocalManager
