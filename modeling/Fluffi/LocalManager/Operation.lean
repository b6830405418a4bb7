import Fluffi.Systems.Run
import Fluffi.LocalManager.Entries
import Fluffi.LocalManager.NoResponse
import Fluffi.LocalManager.Scheduling

/-! The local manager in operation, as far as it changes its testcases: it handles the messages of
evaluators and generators, its cleanup worker drops testcases, and the operator adds, deactivates
and removes some. -/

namespace Fluffi.LocalManager

open Shared Systems

inductive LMEvent
  | evaluate (env : RequestEnv) (req : PutTestEvaluationRequest)
  | noResult (env : ReportEnv) (req : ReportTestcaseWithNoResultRequest)
  | newMutations (parentID : FluffiTestcaseID) (outcome : BatchOutcome)
  | cleanUp (statement : CleanupStatement)
  /-- `INSERT_TESTCASE_POPULATION` -/
  | addInitial (localID : UInt64) (rawData : Bytes)
  /-- The stored procedure found a testcase with the same coverage. -/
  | deactivate (tcID : FluffiTestcaseID)
  | remove (creator : TestcaseKey)

/-- The type of the testcases that the statement looks at. -/
def CleanupStatement.type : CleanupStatement → Option TestCaseType
  | .dropCrash _ _ _ => none
  | .dropHangs => some .Hang
  | .dropNoResponses => some .NoResponse

namespace LMState

variable (m_testcaseDir : String)

/-- The table of crashes has a unique key, without which the worker does nothing here. -/
def next (s : LMState) : LMEvent → Option LMState
  | .evaluate env req =>
    (handlePutTestEvaluationRequest m_testcaseDir env s req).toOption.map Prod.snd
  | .noResult env req =>
    (handleReportTestcaseWithNoResultRequest { env with host := s.host } s.db m_testcaseDir
      req).toOption.map fun (_, db, host) => { s with db := db, host := host }
  | .newMutations parentID outcome => some { s with db := reportNewMutations s.db parentID outcome }
  | .cleanUp statement =>
    if h : (s.db.crash_descriptions.map (·.CreatorTestcaseID)).Nodup then
      some { s with db := (statement.run ⟨s.db, h⟩).toLMDatabase }
    else none
  | .addInitial localID rawData =>
    (s.db.insertInteresting ⟨"initial", localID⟩ ⟨"initial", localID⟩ 10000 rawData
      .Population).map fun db => { s with db := db }
  | .deactivate tcID =>
    some { s with db := (setTestcaseType (fun _ => true) s.db tcID .Inactive_Population).2 }
  | .remove creator => some { s with db := s.db.deleteInteresting creator }

end LMState

/-- The message of an evaluator. -/
def LMEvent.isEvaluation : LMEvent → Bool
  | .evaluate _ _ => true
  | _ => false

/-- The event is about the testcase. -/
def LMEvent.About (k : TestcaseKey) : LMEvent → Prop
  | .evaluate _ req => req.eval = .Keep ∧ k = req.id.key
  | .noResult _ req => k = req.id.key
  | .deactivate tcID => k = tcID.key
  | .remove creator => k = creator
  | _ => False

/-- The event drops the row. -/
def LMEvent.Drops (db : LMDatabase) (entry : InterestingTestcase) : LMEvent → Prop
  | .cleanUp statement => statement.type = some entry.TestCaseType ∧
      entry.ID ∉ lowest 10000 (db.held entry.TestCaseType)
  | _ => False

/-- The blocks that the event can add. -/
def LMEvent.blocks : LMEvent → List FluffiBasicBlock
  | .evaluate _ req => if req.eval = .Keep then req.result.m_blocks else []
  | _ => []

/-! ### The cleanup -/

variable {cdb : CrashDatabase} {deleted : InterestingTestcase → Bool}
  {touched : InterestingTestcase → Prop}

theorem change_deleteWhere (h : ∀ row ∈ cdb.interesting_testcases,
    (∀ cd ∈ cdb.crash_descriptions, cd.CreatorTestcaseID ≠ row.ID) → deleted row = true →
      ∀ rating, touched { row with Rating := rating }) :
    Change touched [] cdb.toLMDatabase (cdb.deleteWhere deleted).toLMDatabase where
  keeps entry hentry hfree := by
    obtain ⟨rating, hrow⟩ := hentry.row
    have hkept : deleted { entry with Rating := rating } = false :=
      Bool.eq_false_iff.mpr fun hdeleted =>
        hfree (h _ hrow hentry.no_crash hdeleted entry.Rating)
    refine ⟨⟨⟨rating, CrashDatabase.mem_deleteWhere_rows hrow hkept⟩, fun cd hcd =>
      hentry.no_crash cd (List.mem_of_mem_filter hcd)⟩, fun c hc => ?_⟩
    exact CrashDatabase.mem_deleteWhere_blocks hrow hkept hc
  nextID_le := le_refl _
  on_top := held_of_subset (List.filter_subset_self _)
  covered _ hc := .inl (Finset.mem_of_mem_filter _ hc)

theorem change_dropCrash {c : Collation} (order : ResultOrder c) (times : ℕ)
    (crashFootprint : String) (cdb : CrashDatabase) : Untouched cdb.toLMDatabase
      (cdb.dropTestcaseIfCrashFootprintAppearedMoreThanXTimes order times
        crashFootprint).toLMDatabase := by
  unfold CrashDatabase.dropTestcaseIfCrashFootprintAppearedMoreThanXTimes
  split
  · exact .refl _ _ _
  · refine change_deleteWhere fun row hrow hnone hdeleted rating => ?_
    obtain ⟨tc, htc, hboth⟩ := List.any_eq_true.mp hdeleted
    obtain ⟨-, hcd, hcreator⟩ := CrashDatabase.mem_joined_iff.mp htc
    rw [Bool.and_eq_true, decide_eq_true_eq] at hboth
    exact hnone tc.2 hcd (hcreator.trans hboth.1)

theorem change_dropType (type : TestCaseType) {instances : ℕ} (hpos : 0 < instances)
    (cdb : CrashDatabase) : Change (fun entry => type = entry.TestCaseType ∧
      entry.ID ∉ lowest instances (cdb.held entry.TestCaseType)) [] cdb.toLMDatabase
        (cdb.dropTestcaseTypeIFMoreThan type instances).toLMDatabase := by
  unfold CrashDatabase.dropTestcaseTypeIFMoreThan
  rw [if_neg hpos.ne']
  split
  · exact .refl _ _ _
  · rename_i tclimit hlimit
    refine change_deleteWhere fun row hrow _ hdeleted rating => ?_
    rw [Bool.and_eq_true, decide_eq_true_eq, decide_eq_true_eq] at hdeleted
    obtain ⟨hlt, htype⟩ := hdeleted
    refine ⟨htype.symm, fun hlowest => ?_⟩
    rw [htype] at hlowest
    have hle := (CrashDatabase.mem_lowest_held hpos hrow htype).mp hlowest tclimit hlimit
    exact absurd hle (not_le.mpr hlt)

theorem change_cleanUp (statement : CleanupStatement) (cdb : CrashDatabase) :
    Change (fun entry => statement.type = some entry.TestCaseType ∧
      entry.ID ∉ lowest 10000 (cdb.held entry.TestCaseType)) [] cdb.toLMDatabase
        (statement.run cdb).toLMDatabase := by
  cases statement with
  | dropCrash _ order crashFootprint =>
    exact (change_dropCrash order 1000 crashFootprint cdb).change
  | dropHangs =>
    exact (change_dropType .Hang (by decide) cdb).mono
      (fun _ h => ⟨congrArg some h.1, h.2⟩) (List.Subset.refl _)
  | dropNoResponses =>
    exact (change_dropType .NoResponse (by decide) cdb).mono
      (fun _ h => ⟨congrArg some h.1, h.2⟩) (List.Subset.refl _)

theorem change_noResult {lm : ReportEnv} {db db' : LMDatabase} {m_testcaseDir : String}
    {req : ReportTestcaseWithNoResultRequest} {success : Bool} {host : Host}
    (h : handleReportTestcaseWithNoResultRequest lm db m_testcaseDir req =
      .ok (success, db', host)) : Change (·.Creator = req.id.key) [] db db' := by
  unfold handleReportTestcaseWithNoResultRequest at h
  cases hstore : storeTestcaseFileOnDisk lm.host lm.store
      (lm.ask req.id.m_serviceDescriptor.m_serviceHostAndPort req.id) req.id m_testcaseDir
      req.testcasefirstchunk req.islastchunk with
  | error abnormal =>
    rw [hstore] at h
    cases h
  | ok stored =>
    rw [hstore] at h
    simp only [Except.bind] at h
    split at h
    · obtain ⟨-, hdb⟩ := Prod.mk.inj (Except.ok.inj h)
      obtain ⟨rfl, -⟩ := Prod.mk.inj hdb
      exact .refl _ _ db
    · cases hadd : addEntryToInterestingTestcasesTable lm.accepts
          (limited stored.host.files lm.readLimit) lm.heap db stored.host.m_setOfFilesToDelete
          req.id req.parentid 0 m_testcaseDir .NoResponse with
      | error abnormal =>
        rw [hadd] at h
        cases h
      | ok result =>
        obtain ⟨added, db₁, marked⟩ := result
        rw [hadd] at h
        obtain ⟨-, hdb⟩ := Prod.mk.inj (Except.ok.inj h)
        obtain ⟨rfl, -⟩ := Prod.mk.inj hdb
        exact change_addEntry hadd

theorem change_newMutations (db : LMDatabase) (parentID : FluffiTestcaseID)
    (outcome : BatchOutcome) : Untouched db (reportNewMutations db parentID outcome) := by
  cases outcome with
  | threw => exact .refl _ _ db
  | children size report =>
    cases report with
    | lost | late =>
      simp only [reportNewMutations, ite_self]
      exact .refl _ _ db
    | inTime accepts =>
      simp only [reportNewMutations]
      split
      · exact change_addDelta accepts db parentID _
      · exact .refl _ _ db

theorem toOption_eq_some {ε α : Type*} {x : Except ε α} {a : α} (h : x.toOption = some a) :
    x = .ok a := by
  cases x with
  | error e => cases h
  | ok b => exact congrArg Except.ok (Option.some.inj h)

variable {m_testcaseDir : String} {s t u : LMState} {e : LMEvent}

/-- What an event does to the testcases: it changes those that it is about, and drops some. -/
theorem change_next (h : LMState.next m_testcaseDir s e = some t) :
    Change (fun entry => e.About entry.Creator ∨ e.Drops s.db entry) e.blocks s.db t.db := by
  cases e with
  | evaluate env req =>
    obtain ⟨⟨success, s'⟩, hok, rfl⟩ := Option.map_eq_some_iff.mp h
    have hchange := change_evaluation (toOption_eq_some hok)
    exact hchange.mono (fun _ h => .inl h) (List.Subset.refl _)
  | noResult env req =>
    obtain ⟨⟨success, db, host⟩, hok, rfl⟩ := Option.map_eq_some_iff.mp h
    exact (change_noResult (toOption_eq_some hok)).mono (fun _ h => .inl h) (List.Subset.refl _)
  | newMutations parentID outcome =>
    obtain rfl := Option.some.inj h
    exact (change_newMutations s.db parentID outcome).change
  | cleanUp statement =>
    simp only [LMState.next, Option.dite_none_right_eq_some, Option.some.injEq] at h
    obtain ⟨hunique, rfl⟩ := h
    exact (change_cleanUp statement ⟨s.db, hunique⟩).mono (fun _ h => .inr h)
      (List.Subset.refl _)
  | addInitial localID rawData =>
    obtain ⟨db, hinsert, rfl⟩ := Option.map_eq_some_iff.mp h
    exact (change_insertInteresting hinsert).change
  | deactivate tcID =>
    obtain rfl := Option.some.inj h
    exact (change_setType _ s.db tcID (.inr rfl)).mono (fun _ h => .inl h) (List.Subset.refl _)
  | remove creator =>
    obtain rfl := Option.some.inj h
    exact (change_deleteInteresting s.db creator).mono (fun _ h => .inl h) (List.Subset.refl _)

/-! ### Runs -/

namespace LMState

variable {tr : List (LMState × LMEvent)} {entry : InterestingTestcase} {type : TestCaseType}

end LMState

end Fluffi.LocalManager
