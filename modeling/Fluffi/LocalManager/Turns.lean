import Fluffi.LocalManager.Scheduling

/-! How often other testcases are handed out before a given one. A testcase that is rated at least
as high can be handed out once for each point it is ahead and once for each generator that is not
at work on it; a report that is handled in time takes at least one of these turns away. -/

namespace Fluffi.LocalManager

open Shared Systems

variable {G : Type*} [DecidableEq G]

namespace Scheduling

/-- How often a testcase whose rating is ahead by `gap` can still be handed out: as often as the
gap can fall by one, and by every generator that is not at work on it. -/
def gapTurns (generators working : ℕ) (gap : ℤ) : ℕ :=
  if 0 ≤ gap then (gap + 1).toNat + (generators - working) else 0

/-- How often the testcase of a row can be handed out before `t`. -/
def turns [Fintype G] (s : Scheduling G) (t : TestcaseKey) (row : InterestingTestcase) : ℕ :=
  if row.Creator ≠ t ∧ row.TestCaseType = .Population then
    gapTurns (Fintype.card G) (s.workingOn row.Creator) (row.Rating - ratingOf s.db t)
  else 0

/-- How often other testcases can be handed out before this one. -/
def backlog [Fintype G] (s : Scheduling G) (t : TestcaseKey) : ℕ :=
  (s.db.interesting_testcases.map (s.turns t)).sum

/-- Another testcase is handed out. -/
def overtakes (t : TestcaseKey) : SchedulingEvent G → ℕ
  | .getNewParent _ row _ => if row.Creator = t then 0 else 1
  | _ => 0

/-- What a change of the rating of `k` by `delta` adds to the backlog of `t`. -/
def ratingCost [Fintype G] (s : Scheduling G) (t k : TestcaseKey) (delta : ℤ) : ℕ :=
  if k = t then
    if delta < 0 then
      s.db.interesting_testcases.length * ((-delta).toNat + Fintype.card G)
    else 0
  else if 0 < delta then delta.toNat + Fintype.card G
  else 0

/-- What an event adds to the backlog at most. A batch that is reported in time adds nothing,
unless it is of the testcase itself; another one lets its parent have another turn. -/
def cost [Fintype G] (s : Scheduling G) (t : TestcaseKey) : SchedulingEvent G → ℕ
  | .getNewParent _ _ fileStored => if fileStored then 0 else 1
  | .batchMutate g outcome =>
    match (s.fillers g).parentID, outcome with
    | some parentID, .children size (.inTime accepts) =>
      if 0 < size ∧ accepts .updateRating then
        if parentID.key = t then s.ratingCost t t (0 - size) else 0
      else 1
    | some _, _ => 1
    | none, _ => 0
  | .lateReport _ report => s.ratingCost t report.id.key (0 - report.numOfNewMutationsInQueue)
  | .addDelta _ parentid delta => s.ratingCost t parentid.key delta
  | .insert _ _ rating _ type =>
    if type = .Population then (rating - ratingOf s.db t + 1).toNat + Fintype.card G else 0
  | .setType _ tcID tcType =>
    if tcType = .Population then
      (ratingOf s.db tcID.key - ratingOf s.db t + 1).toNat + Fintype.card G
    else 0
  | .delete _ => 0

/-! ### Gaps -/

section Gaps

variable {generators working : ℕ} {gap : ℤ}

theorem gapTurns_mono {gap' : ℤ} (h : gap' ≤ gap) :
    gapTurns generators working gap' ≤ gapTurns generators working gap := by
  simp only [gapTurns]
  split_ifs <;> omega

theorem gapTurns_le (gap : ℤ) :
    gapTurns generators working gap ≤ (gap + 1).toNat + generators := by
  simp only [gapTurns]
  split_ifs <;> omega

theorem gapTurns_add (delta : ℤ) :
    gapTurns generators working (gap + delta) ≤
      gapTurns generators working gap + (delta.toNat + generators) := by
  simp only [gapTurns]
  split_ifs <;> omega

/-- A generator at work on a testcase takes one of its turns. -/
theorem gapTurns_succ (h : working < generators) (hgap : 0 ≤ gap) :
    gapTurns generators (working + 1) gap + 1 = gapTurns generators working gap := by
  simp only [gapTurns, if_pos hgap]
  omega

theorem gapTurns_succ_le :
    gapTurns generators (working + 1) gap ≤ gapTurns generators working gap := by
  simp only [gapTurns]
  split_ifs <;> omega

theorem gapTurns_le_succ :
    gapTurns generators working gap ≤ gapTurns generators (working + 1) gap + 1 := by
  simp only [gapTurns]
  split_ifs <;> omega

/-- A report of children pays for the turn that the generator gives back. -/
theorem gapTurns_report {gap' : ℤ} (h : gap' < gap) :
    gapTurns generators working gap' ≤ gapTurns generators (working + 1) gap := by
  simp only [gapTurns]
  split_ifs <;> omega

end Gaps

/-! ### Steps -/

section Steps

variable [Fintype G] {s s' : Scheduling G} {t : TestcaseKey}

omit [DecidableEq G] in
/-- The rows are mapped without changing their creators: the new backlog as a sum over the old
rows. -/
theorem backlog_map {φ : InterestingTestcase → InterestingTestcase}
    (hrows : s'.db.interesting_testcases = s.db.interesting_testcases.map φ) :
    s'.backlog t = (s.db.interesting_testcases.map fun row => s'.turns t (φ row)).sum := by
  rw [backlog, hrows, List.map_map]
  rfl

omit [DecidableEq G] in
theorem backlog_congr (hdb : s'.db = s.db) (hworking : ∀ k, s'.workingOn k = s.workingOn k) :
    s'.backlog t = s.backlog t := by
  rw [backlog, backlog, hdb]
  congr 1
  apply List.map_congr_left
  intro row _
  simp only [turns, hworking, hdb]

omit [DecidableEq G] in
/-- A rating changes: the backlog rises by no more than the cost. -/
theorem backlog_rating {k : TestcaseKey} {delta : ℤ} (ht : InPopulation s.db t)
    (hrows : s'.db.interesting_testcases = s.db.interesting_testcases.map (raise k delta))
    (hworking : ∀ j, s'.workingOn j = s.workingOn j) :
    s'.backlog t ≤ s.backlog t + s.ratingCost t k delta := by
  obtain ⟨hrating, -⟩ := ratingOf_map hrows ht
  rw [backlog_map hrows, backlog, ratingCost]
  by_cases hk : k = t
  · subst hk
    rw [if_pos rfl] at hrating ⊢
    have hturns : ∀ row : InterestingTestcase, s'.turns k (raise k delta row) =
        if row.Creator ≠ k ∧ row.TestCaseType = .Population then
          gapTurns (Fintype.card G) (s.workingOn row.Creator)
            (row.Rating - ratingOf s.db k + -delta)
        else 0 := by
      intro row
      simp only [turns, raise_Creator, raise_TestCaseType, raise_Rating, hworking, hrating]
      by_cases hrow : row.Creator ≠ k ∧ row.TestCaseType = .Population
      · rw [if_pos hrow, if_pos hrow, if_neg hrow.1]
        congr 1
        omega
      · rw [if_neg hrow, if_neg hrow]
    simp only [hturns]
    split_ifs with hneg
    · apply sum_map_le_length_mul
      intro row _
      simp only [turns]
      split_ifs
      · exact gapTurns_add _
      · exact Nat.zero_le _
    · rw [Nat.add_zero]
      apply sum_map_le_sum_map
      intro row _
      simp only [turns]
      split_ifs
      · exact gapTurns_mono (by omega)
      · exact Nat.le_refl 0
  · rw [if_neg hk, Int.add_zero] at hrating
    rw [if_neg hk]
    have hturns : ∀ row : InterestingTestcase, s'.turns t (raise k delta row) =
        if row.Creator ≠ t ∧ row.TestCaseType = .Population then
          gapTurns (Fintype.card G) (s.workingOn row.Creator)
            (row.Rating - ratingOf s.db t + if row.Creator = k then delta else 0)
        else 0 := by
      intro row
      simp only [turns, raise_Creator, raise_TestCaseType, raise_Rating, hworking, hrating]
      congr 2
      omega
    simp only [hturns]
    apply sum_map_le_add s.db.creator_unique k
    · intro row _ hrow
      simp only [turns, if_neg hrow, Int.add_zero]
      exact Nat.le_refl _
    · intro row _ hrow
      simp only [turns, if_pos hrow]
      split_ifs
      · exact gapTurns_add _
      · exact gapTurns_mono (by omega)
      · exact Nat.zero_le _
      · exact Nat.zero_le _

omit [DecidableEq G] in
/-- The database may refuse to add to a rating. -/
theorem backlog_added {accepts : Statement → Bool} {k : TestcaseKey} {delta : ℤ}
    (ht : InPopulation s.db t)
    (hrows : s'.db.interesting_testcases =
      s.db.interesting_testcases.map (raise k (effective accepts delta)))
    (hworking : ∀ j, s'.workingOn j = s.workingOn j) :
    s'.backlog t ≤ s.backlog t + s.ratingCost t k delta := by
  have hrated := backlog_rating ht hrows hworking
  have hcost : s.ratingCost t k (effective accepts delta) ≤ s.ratingCost t k delta := by
    simp only [effective]
    split
    · exact Nat.le_refl _
    · simp [ratingCost]
  omega

/-- A parent is handed out: its testcase gives away one of its turns, unless the file is not
stored. -/
theorem backlog_getNewParent {g : G} {row : InterestingTestcase} {fileStored : Bool}
    (ht : InPopulation s.db t) (hs : s.next (.getNewParent g row fileStored) = some s') :
    overtakes t (.getNewParent g row fileStored) + s'.backlog t ≤
      s.backlog t + s.cost t (.getNewParent g row fileStored) := by
  simp only [next, Option.ite_none_right_eq_some, Option.some.injEq] at hs
  obtain ⟨⟨hnone, hrow, htype, htop⟩, rfl⟩ := hs
  have hworking := workingOn_setFiller s s.db s.late g
    { s.fillers g with parentID := if fileStored then some row.id else none }
  cases fileStored with
  | false =>
    simp only [hnone, Bool.false_eq_true, if_false, Option.map_none, reduceCtorEq, Nat.add_zero]
      at hworking
    simp only [overtakes, cost, Bool.false_eq_true, if_false]
    have hsame : backlog { s with
        fillers := s.setFiller g { s.fillers g with parentID := none } } t = s.backlog t :=
      backlog_congr rfl hworking
    rw [hsame]
    split <;> omega
  | true =>
    simp only [hnone, if_true, Option.map_none, reduceCtorEq, if_false, Nat.add_zero,
      Option.map_some, Option.some.injEq] at hworking
    have hcreator : row.id.key = row.Creator := rfl
    rw [hcreator] at hworking
    obtain ⟨own, hown, rfl, hpopulation⟩ := ht
    have hgap : 0 ≤ row.Rating - ratingOf s.db own.Creator := by
      have := htop own hown hpopulation
      rw [ratingOf_eq hown rfl]
      omega
    have hle : ∀ other ∈ s.db.interesting_testcases,
        turns { s with fillers := s.setFiller g { s.fillers g with parentID := some row.id } }
          own.Creator other ≤ s.turns own.Creator other := by
      intro other _
      simp only [turns, hworking]
      split_ifs
      · exact gapTurns_succ_le
      · exact Nat.le_refl _
      · exact Nat.le_refl _
    simp only [overtakes, cost, if_true, Nat.add_zero]
    split
    · rw [Nat.zero_add]
      exact sum_map_le_sum_map hle
    case isFalse hother =>
      rw [Nat.add_comm]
      apply sum_map_add_one_le hrow _ hle
      simp only [turns, hworking, if_true]
      rw [if_pos ⟨hother, htype⟩, if_pos ⟨hother, htype⟩]
      refine (gapTurns_succ ?_ hgap).le
      have := workingOn_le
        { s with fillers := s.setFiller g { s.fillers g with parentID := some row.id } }
        row.Creator
      rw [hworking, if_pos rfl] at this
      omega

omit [DecidableEq G] in
/-- A batch lowers the rating of its parent, or it does not. -/
theorem batchDelta_cases (s : Scheduling G) (t : TestcaseKey) {g : G} {parentID : FluffiTestcaseID}
    (hparent : (s.fillers g).parentID = some parentID) (outcome : BatchOutcome) :
    (batchDelta outcome < 0 ∧ s.cost t (.batchMutate g outcome) =
        if parentID.key = t then s.ratingCost t t (batchDelta outcome) else 0) ∨
      batchDelta outcome = 0 ∧ s.cost t (.batchMutate g outcome) = 1 := by
  cases outcome with
  | threw => exact .inr ⟨rfl, by simp only [cost, hparent]⟩
  | children size report =>
    cases report with
    | lost | late => exact .inr ⟨rfl, by simp only [cost, hparent]⟩
    | inTime accepts =>
      simp only [cost, hparent, batchDelta, effective]
      by_cases haccepts : accepts .updateRating = true
      · by_cases hsize : 0 < size
        · left
          rw [if_pos haccepts, if_pos ⟨hsize, haccepts⟩]
          exact ⟨by omega, rfl⟩
        · right
          rw [if_pos haccepts, if_neg fun h => hsize h.1]
          exact ⟨by omega, rfl⟩
      · right
        rw [if_neg haccepts, if_neg fun h => haccepts h.2]
        exact ⟨rfl, rfl⟩

/-- A batch ends. If it lowered the rating of its parent, that pays for the turn its generator
gives back. -/
theorem backlog_batchMutate {g : G} {outcome : BatchOutcome} (ht : InPopulation s.db t)
    (hs : s.next (.batchMutate g outcome) = some s') :
    s'.backlog t ≤ s.backlog t + s.cost t (.batchMutate g outcome) := by
  simp only [next, Option.map_eq_some_iff] at hs
  obtain ⟨parentID, hparent, rfl⟩ := hs
  set filler := { s.fillers g with
    m_bulkGenerationSize := (s.fillers g).adapt outcome
    parentID := none } with hfiller
  set db := reportNewMutations s.db parentID outcome
  set late := s.late ++ outcome.leaves parentID
  have hrows : db.interesting_testcases =
      s.db.interesting_testcases.map (raise parentID.key (batchDelta outcome)) :=
    reportNewMutations_rows s.db parentID outcome
  obtain ⟨hrating, -⟩ := ratingOf_map hrows ht
  have hworking : ∀ k, s.workingOn k =
      (⟨db, s.setFiller g filler, late⟩ : Scheduling G).workingOn k +
        if parentID.key = k then 1 else 0 := by
    intro k
    have := workingOn_setFiller s db late g filler k
    simpa [hfiller, hparent] using this.symm
  by_cases hk : parentID.key = t
  · have hrated : backlog ⟨db, s.fillers, late⟩ t ≤
        s.backlog t + s.ratingCost t parentID.key (batchDelta outcome) :=
      backlog_rating ht hrows fun _ => rfl
    have hsame : backlog ⟨db, s.setFiller g filler, late⟩ t = backlog ⟨db, s.fillers, late⟩ t := by
      simp only [backlog]
      congr 1
      apply List.map_congr_left
      intro row _
      simp only [turns]
      split_ifs with hrow
      · have hw := hworking row.Creator
        rw [if_neg fun h => hrow.1 (h.symm.trans hk), Nat.add_zero] at hw
        rw [← hw]
        rfl
      · rfl
    rw [hsame]
    rcases batchDelta_cases s t hparent outcome with ⟨-, hcost⟩ | ⟨hzero, hcost⟩
    · rw [hcost, if_pos hk]
      rwa [hk] at hrated
    · have hfree : s.ratingCost t parentID.key (batchDelta outcome) = 0 := by
        simp [ratingCost, hzero]
      omega
  · rw [if_neg hk, Int.add_zero] at hrating
    have hturns : ∀ row : InterestingTestcase,
        turns ⟨db, s.setFiller g filler, late⟩ t (raise parentID.key (batchDelta outcome) row) =
          if row.Creator ≠ t ∧ row.TestCaseType = .Population then
            gapTurns (Fintype.card G)
              ((⟨db, s.setFiller g filler, late⟩ : Scheduling G).workingOn row.Creator)
              (row.Rating - ratingOf s.db t +
                if row.Creator = parentID.key then batchDelta outcome else 0)
          else 0 := by
      intro row
      simp only [turns, raise_Creator, raise_TestCaseType, raise_Rating, hrating]
      congr 2
      omega
    have hother : ∀ row ∈ s.db.interesting_testcases, row.Creator ≠ parentID.key →
        turns ⟨db, s.setFiller g filler, late⟩ t (raise parentID.key (batchDelta outcome) row) ≤
          s.turns t row := by
      intro row _ hrow
      rw [hturns, turns, hworking, if_neg hrow, if_neg (Ne.symm hrow), Nat.add_zero, Int.add_zero]
    rw [backlog_map hrows, backlog]
    rcases batchDelta_cases s t hparent outcome with ⟨hneg, hcost⟩ | ⟨hzero, hcost⟩
    · rw [hcost, if_neg hk]
      refine sum_map_le_add s.db.creator_unique parentID.key 0 hother fun row _ hrow => ?_
      rw [hturns, turns, hworking, if_pos hrow, if_pos hrow.symm]
      split_ifs
      · exact gapTurns_report (by omega)
      · exact Nat.le_refl 0
    · rw [hcost]
      refine sum_map_le_add s.db.creator_unique parentID.key 1 hother fun row _ hrow => ?_
      rw [hturns, turns, hworking, if_pos hrow, if_pos hrow.symm, hzero, Int.add_zero]
      split_ifs
      · exact gapTurns_le_succ
      · exact Nat.zero_le _

/-- A row is inserted, with at most its own turns. -/
theorem backlog_insert {creator parent : TestcaseKey} {rating : ℤ} {rawBytes : Bytes}
    {type : TestCaseType} (hs : s.next (.insert creator parent rating rawBytes type) = some s')
    (hrating : ratingOf s'.db t = ratingOf s.db t) :
    s'.backlog t ≤ s.backlog t + s.cost t (.insert creator parent rating rawBytes type) := by
  simp only [next, Option.map_eq_some_iff, LMDatabase.insertInteresting,
    Option.dite_none_right_eq_some, Option.some.injEq] at hs
  obtain ⟨db, ⟨hnew, hdb⟩, rfl⟩ := hs
  have hrows : db.interesting_testcases =
      s.db.interesting_testcases ++ [⟨s.db.nextID, creator, parent, rating, rawBytes, type⟩] := by
    rw [← hdb]
  have hsame : turns { s with db := db } t = s.turns t := by
    funext other
    simp only [turns, hrating]
    rfl
  have hadded : s.turns t ⟨s.db.nextID, creator, parent, rating, rawBytes, type⟩ ≤
      s.cost t (.insert creator parent rating rawBytes type) := by
    simp only [turns, cost]
    split_ifs with hboth hpopulation hpopulation
    · exact gapTurns_le _
    · exact absurd hboth.2 hpopulation
    · exact Nat.zero_le _
    · exact Nat.le_refl 0
  rw [backlog, hsame, hrows, List.map_append, List.sum_append, List.map_singleton,
    List.sum_singleton]
  exact Nat.add_le_add_left hadded _

/-- A testcase gets another type: in the population it has its own turns. -/
theorem backlog_setType {accepts : Statement → Bool} {tcID : FluffiTestcaseID}
    {tcType : TestCaseType} (hs : s.next (.setType accepts tcID tcType) = some s')
    (hrating : ratingOf s'.db t = ratingOf s.db t) :
    s'.backlog t ≤ s.backlog t + s.cost t (.setType accepts tcID tcType) := by
  simp only [next, Option.some.injEq] at hs
  subst hs
  have hworking : ∀ k, workingOn { s with db := (setTestcaseType accepts s.db tcID tcType).2 } k =
      s.workingOn k := fun _ => rfl
  rw [backlog_map (s := s) (setTestcaseType_rows accepts s.db tcID tcType), backlog]
  apply sum_map_le_add s.db.creator_unique tcID.key
  · intro row _ hrow
    have hsame : retype accepts tcID.key tcType row = row := if_neg fun h => hrow h.2
    simp only [turns, hrating, hsame, hworking]
    exact Nat.le_refl _
  · intro row hrow hk
    simp only [turns, retype_Creator, retype_Rating, hrating, cost, ratingOf_eq hrow hk, hworking]
    by_cases hpopulation : (retype accepts tcID.key tcType row).TestCaseType = row.TestCaseType
    · rw [hpopulation]
      exact Nat.le_add_right _ _
    · have hset : (retype accepts tcID.key tcType row).TestCaseType = tcType := by
        simp only [retype] at hpopulation ⊢
        split at hpopulation
        case isTrue h => rw [if_pos h]
        case isFalse => exact absurd rfl hpopulation
      rw [hset]
      by_cases htype : tcType = .Population
      · rw [if_pos htype]
        refine Nat.le_trans ?_ (Nat.le_add_left _ _)
        split
        · exact gapTurns_le _
        · exact Nat.zero_le _
      · rw [if_neg fun h => htype h.2]
        exact Nat.zero_le _

/-- A deleted testcase takes its turns along. -/
theorem backlog_delete {creator : TestcaseKey} (hs : s.next (.delete creator) = some s')
    (hrating : ratingOf s'.db t = ratingOf s.db t) : s'.backlog t ≤ s.backlog t := by
  simp only [next, Option.some.injEq] at hs
  subst hs
  have hsame : turns { s with db := s.db.deleteInteresting creator } t = s.turns t := by
    funext other
    simp only [turns, hrating]
    rfl
  rw [backlog, hsame]
  exact sum_filter_le _

/-- A step pays for an overtaking out of the backlog and its cost. -/
theorem backlog_step {e : SchedulingEvent G} (ht : InPopulation s.db t) (hspares : Spares t e)
    (hs : s.next e = some s') :
    InPopulation s'.db t ∧ overtakes t e + s'.backlog t ≤ s.backlog t + s.cost t e := by
  obtain ⟨hin, hrating⟩ := rating_step ht hspares hs
  refine ⟨hin, ?_⟩
  cases e with
  | getNewParent g row fileStored => exact backlog_getNewParent ht hs
  | batchMutate g outcome => simpa only [overtakes, Nat.zero_add] using backlog_batchMutate ht hs
  | lateReport accepts report =>
    simp only [next, Option.ite_none_right_eq_some, Option.some.injEq] at hs
    obtain ⟨-, rfl⟩ := hs
    simp only [overtakes, cost, Nat.zero_add]
    exact backlog_added ht (addDelta_rows accepts s.db report.id _) fun _ => rfl
  | addDelta accepts parentid delta =>
    simp only [next, Option.some.injEq] at hs
    subst hs
    simp only [overtakes, cost, Nat.zero_add]
    exact backlog_added ht (addDelta_rows accepts s.db parentid delta) fun _ => rfl
  | insert creator parent rating rawBytes type =>
    simpa only [overtakes, Nat.zero_add] using backlog_insert hs (hrating.trans (Int.add_zero _))
  | setType accepts tcID tcType =>
    simpa only [overtakes, Nat.zero_add] using backlog_setType hs (hrating.trans (Int.add_zero _))
  | delete creator =>
    simpa only [overtakes, cost, Nat.zero_add, Nat.add_zero] using
      backlog_delete hs (hrating.trans (Int.add_zero _))

end Steps

/-! ### Runs -/

/-- An event of a population that is left alone: files are stored, every batch is reported in time
and lowers the rating of a parent other than `t`, evaluations do not raise ratings, nothing else
lowers that of `t`, and no testcase is added to the population. -/
def Orderly (t : TestcaseKey) (s : Scheduling G) : SchedulingEvent G → Prop
  | .getNewParent _ _ fileStored => fileStored = true
  | .batchMutate g outcome =>
    batchDelta outcome < 0 ∧ ∀ parentID ∈ (s.fillers g).parentID, parentID.key ≠ t
  | .lateReport _ report => report.id.key ≠ t
  | .addDelta _ parentid delta => delta ≤ 0 ∧ parentid.key ≠ t
  | .insert _ _ _ _ type => type ≠ .Population
  | .setType _ _ tcType => tcType ≠ .Population
  | .delete _ => True

omit [DecidableEq G] in
theorem cost_orderly [Fintype G] {s : Scheduling G} {t : TestcaseKey} {e : SchedulingEvent G}
    (h : Orderly t s e) : s.cost t e = 0 := by
  cases e with
  | getNewParent g row fileStored => exact if_pos h
  | batchMutate g outcome =>
    cases hparent : (s.fillers g).parentID with
    | none => simp only [cost, hparent]
    | some parentID =>
      rcases batchDelta_cases s t hparent outcome with ⟨-, hcost⟩ | ⟨hzero, -⟩
      · rw [hcost, if_neg (h.2 parentID hparent)]
      · have := h.1
        omega
  | lateReport accepts report => rw [cost, ratingCost, if_neg h, if_neg (by omega)]
  | addDelta accepts parentid delta =>
    have := h.1
    rw [cost, ratingCost, if_neg h.2, if_neg (by omega)]
  | insert creator parent rating rawBytes type => exact if_neg h
  | setType accepts tcID tcType => exact if_neg h
  | delete creator => rfl

section Runs

variable [Fintype G] {s u : Scheduling G} {tr : List (Scheduling G × SchedulingEvent G)}
  {t : TestcaseKey}

/-- No testcase of the population is passed over for ever. However many generators are at work
and whatever happens in between, the number of times that other testcases are handed out is
bounded by the backlog and what the events add to it. If the population is left alone nothing is
added, so a testcase that is not handed out is overtaken no more often than its backlog says. -/
theorem handOut_bounded (hr : Run next s tr u) (ht : InPopulation s.db t)
    (hspares : ∀ p ∈ tr, Spares t p.2) :
    (tr.map fun p => overtakes t p.2).sum + u.backlog t ≤
        s.backlog t + (tr.map fun p => p.1.cost t p.2).sum ∧
      ((∀ p ∈ tr, Orderly t p.1 p.2) → (tr.map fun p => overtakes t p.2).sum ≤ s.backlog t) := by
  have hbound : (tr.map fun p => overtakes t p.2).sum + u.backlog t ≤
      s.backlog t + (tr.map fun p => p.1.cost t p.2).sum :=
    Run.pays_le (fun s => s.backlog t) (fun _ e => overtakes t e) (fun s e => s.cost t e)
      (G := fun _ e => Spares t e) (I := fun s => InPopulation s.db t) hr hspares ht
      fun hin hsp hs => backlog_step hin hsp hs
  refine ⟨hbound, fun horderly => ?_⟩
  have hcosts : (tr.map fun p => p.1.cost t p.2).sum = 0 := by
    rw [List.map_congr_left (g := fun _ => 0) fun p hp => cost_orderly (horderly p hp)]
    simp
  omega

/-- Two testcases, the first one rated higher. -/
def twoTestcases : LMDatabase where
  interesting_testcases := [⟨1, ⟨"a", 1⟩, ⟨"", 0⟩, 10001, [], .Population⟩,
    ⟨2, ⟨"a", 2⟩, ⟨"", 0⟩, 10000, [], .Population⟩]
  crash_descriptions := []
  covered_blocks := ∅
  completed_testcases := 0
  nextID := 3
  creator_unique := by decide
  id_unique := by decide
  id_lt := by decide
  crash_reference := by simp
  block_reference := by simp

def oneGenerator : Scheduling Unit := ⟨twoTestcases, fun _ => .new 50, []⟩

def firstHandOut : SchedulingEvent Unit :=
  .getNewParent () ⟨1, ⟨"a", 1⟩, ⟨"", 0⟩, 10001, [], .Population⟩ true

def firstBatch : SchedulingEvent Unit := .batchMutate () (.children 2 (.inTime fun _ => true))

def afterHandOut : Scheduling Unit := (next oneGenerator firstHandOut).get (by decide)

def afterBatch : Scheduling Unit := (next afterHandOut firstBatch).get (by decide)

theorem run_two : Run next oneGenerator [(oneGenerator, firstHandOut), (afterHandOut, firstBatch)]
    afterBatch :=
  .cons (Option.some_get _).symm (.single (Option.some_get _).symm)

theorem inPopulation_two :
    InPopulation twoTestcases ⟨"a", 1⟩ ∧ InPopulation twoTestcases ⟨"a", 2⟩ :=
  ⟨⟨_, List.mem_cons_self, rfl, rfl⟩, ⟨_, List.mem_cons_of_mem _ List.mem_cons_self, rfl, rfl⟩⟩

/-- The first testcase is handed out, and a batch of two takes it below the second. -/
theorem handOut_bounded_two :
    ([(oneGenerator, firstHandOut), (afterHandOut, firstBatch)].map
        fun p => overtakes ⟨"a", 2⟩ p.2).sum ≤ oneGenerator.backlog ⟨"a", 2⟩ ∧
      oneGenerator.backlog ⟨"a", 2⟩ = 3 := by
  refine ⟨(handOut_bounded run_two inPopulation_two.2 ?_).2 ?_, by decide⟩
  · rintro p hp
    rcases List.mem_cons.mp hp with rfl | hp
    · trivial
    · rw [List.mem_singleton.mp hp]
      trivial
  · rintro p hp
    rcases List.mem_cons.mp hp with rfl | hp
    · rfl
    · rw [List.mem_singleton.mp hp]
      exact ⟨by decide, by decide⟩

end Runs

end Scheduling

end Fluffi.LocalManager
