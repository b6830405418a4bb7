import Fluffi.LocalManager.InterestingTestcases
import Fluffi.Shared.ReceivedFiles

/-! The local manager takes the report of a testcase that was sent too often without a
result. It stores the file, with the chunks it fetches from the host and port in the ID,
and moves it into the database. The answer says if both worked. -/

namespace Fluffi.LocalManager

open Shared

structure ReportTestcaseWithNoResultRequest where
  id : FluffiTestcaseID
  parentid : FluffiTestcaseID
  testcasefirstchunk : Bytes
  islastchunk : Bool
  deriving DecidableEq, Repr

/-- The local manager while it handles one report: its files and marks, what happens
during the store, what chunk requests bring from a host and port, how much can be read
of the stored file if it can be opened, its uninitialised memory, and the statements
that the database accepts. -/
structure ReportEnv where
  host : Host
  store : StoreEnv
  ask : String → FluffiTestcaseID → ℕ → Except Abnormal (Option GetTestCaseChunkResponse)
  readLimit : Option ℕ
  heap : ℕ → UInt8
  accepts : Statement → Bool

/-- `ReportTestcaseWithNoResultRequestHandler::handleFLUFFIMessage`: the field `success` of
the answer, the database and the machine afterwards. -/
def handleReportTestcaseWithNoResultRequest (lm : ReportEnv) (db : LMDatabase)
    (m_testcaseDir : String) (req : ReportTestcaseWithNoResultRequest) :
    Except Abnormal (Bool × LMDatabase × Host) :=
  (storeTestcaseFileOnDisk lm.host lm.store
      (lm.ask req.id.m_serviceDescriptor.m_serviceHostAndPort req.id) req.id m_testcaseDir
      req.testcasefirstchunk req.islastchunk).bind fun stored =>
    if !stored.success then .ok (false, db, stored.host)
    else
      (addEntryToInterestingTestcasesTable lm.accepts (limited stored.host.files lm.readLimit)
          lm.heap db stored.host.m_setOfFilesToDelete req.id req.parentid 0 m_testcaseDir
          .NoResponse).map
        fun (success, db, m_setOfFilesToDelete) =>
          (success, db, { stored.host with m_setOfFilesToDelete })

/-- The table has a row of the testcase with the type `NoResponse`. -/
def LMDatabase.HasNoResponse (db : LMDatabase) (creator : TestcaseKey) : Prop :=
  ∃ row ∈ db.rowsOf creator, row.TestCaseType = .NoResponse

/-! ### Conditions on a report -/

/-- Reading the file back does not overflow the buffer. -/
def ReportEnv.Loads (lm : ReportEnv) (content : Bytes) : Prop :=
  ∀ limit ∈ lm.readLimit, min limit content.length ≤ content.length % 2 ^ 32

section Conditions

variable (lm : ReportEnv) (m_testcaseDir : String) (req : ReportTestcaseWithNoResultRequest)

/-- The file can be stored under its name. -/
def Accepts : Prop :=
  HasRoom lm.host lm.store.turns (generateTestcasePathAndFilename req.id m_testcaseDir) ∧
    lm.store.opens = true

/-- All bytes of the file come. -/
def Arrives (content : Bytes) : Prop :=
  Received (lm.ask req.id.m_serviceDescriptor.m_serviceHostAndPort req.id)
    req.testcasefirstchunk req.islastchunk content

/-- The file is stored and read back, so the database is asked. -/
def ReachesDatabase : Prop :=
  Accepts lm m_testcaseDir req ∧ ∃ content, Arrives lm req content ∧ lm.Loads content

/-- The handler neither waits forever for a deletion nor dies. -/
def Returns : Prop :=
  ¬ KeepsWaiting lm.host lm.store.turns
      (generateTestcasePathAndFilename req.id m_testcaseDir) ∧
    (Accepts lm m_testcaseDir req →
      (req.islastchunk = false →
        Finishes (lm.ask req.id.m_serviceDescriptor.m_serviceHostAndPort req.id) 1) ∧
      ∀ content, Arrives lm req content → lm.Loads content)

/-- The report gets a row of its own. -/
def Stores : Prop :=
  ReachesDatabase lm m_testcaseDir req ∧ lm.accepts .deleteInteresting = true ∧
    lm.accepts .insertInteresting = true

/-- The report only removes the row that was there. -/
def Loses : Prop :=
  ReachesDatabase lm m_testcaseDir req ∧ lm.accepts .deleteInteresting = true ∧
    lm.accepts .insertInteresting = false

end Conditions

/-! ### Statements -/

section Statements

variable {db db' : LMDatabase} {creator other : TestcaseKey}

theorem rowsOf_deleteInteresting_of_ne (hne : other ≠ creator) :
    (db.deleteInteresting creator).rowsOf other = db.rowsOf other := by
  unfold LMDatabase.rowsOf LMDatabase.deleteInteresting
  rw [List.filter_filter]
  refine List.filter_congr fun row _ => ?_
  by_cases hrow : row.Creator = other
  · simp [hrow, hne]
  · simp [hrow]

theorem rowsOf_insertInteresting_of_ne {parent : TestcaseKey} {rating : ℤ} {rawBytes : Bytes}
    {tcType : TestCaseType} (hne : other ≠ creator)
    (hinsert : db.insertInteresting creator parent rating rawBytes tcType = some db') :
    db'.rowsOf other = db.rowsOf other := by
  unfold LMDatabase.insertInteresting at hinsert
  split at hinsert
  case isFalse => cases hinsert
  obtain rfl := Option.some.inj hinsert
  simp [LMDatabase.rowsOf, List.filter_append, hne.symm]

/-- Adding a testcase gives it a row of its type, or takes its row away, or changes nothing. -/
theorem addEntry_hasNoResponse (accepts : Statement → Bool) (db : LMDatabase)
    (marked : Finset String) {disk : Disk} {heap : ℕ → UInt8} {tcID : FluffiTestcaseID}
    (tcparentID : FluffiTestcaseID) {testcaseDir : String} {rawBytes : Bytes}
    (hload : loadTestcaseInMemory disk heap tcID testcaseDir = .ok rawBytes) :
    ∃ db', addEntryToInterestingTestcasesTable accepts disk heap db marked tcID tcparentID 0
        testcaseDir .NoResponse = .ok (accepts .deleteInteresting, db',
          insert (generateTestcasePathAndFilename tcID testcaseDir) marked) ∧
      ∀ creator, db'.HasNoResponse creator ↔
        (creator = tcID.key ∧ accepts .deleteInteresting = true ∧
          accepts .insertInteresting = true) ∨
        (db.HasNoResponse creator ∧ ¬ (creator = tcID.key ∧ accepts .deleteInteresting = true ∧
          accepts .insertInteresting = false)) := by
  rw [addEntryToInterestingTestcasesTable, hload]
  cases hdelete : accepts .deleteInteresting
  · exact ⟨db, by simp [Except.map], by simp⟩
  cases hinsert : accepts .insertInteresting
  · refine ⟨db.deleteInteresting tcID.key, by simp [Except.map], fun creator => ?_⟩
    unfold LMDatabase.HasNoResponse
    by_cases hcreator : creator = tcID.key
    · rw [hcreator, rowsOf_deleteInteresting]
      simp
    · rw [rowsOf_deleteInteresting_of_ne hcreator]
      simp [hcreator]
  · obtain ⟨db', hdb', hrows, _⟩ := insertInteresting_eq (rowsOf_deleteInteresting db tcID.key)
      (parentToSet accepts db tcID tcparentID).key 0 rawBytes .NoResponse
    refine ⟨db', by simp [Except.map, hdb'], fun creator => ?_⟩
    unfold LMDatabase.HasNoResponse
    by_cases hcreator : creator = tcID.key
    · rw [hcreator, hrows]
      simp
    · rw [rowsOf_insertInteresting_of_ne hcreator hdb', rowsOf_deleteInteresting_of_ne hcreator]
      simp [hcreator]

end Statements

/-! ### The handler -/

section Handler

variable {lm : ReportEnv} {m_testcaseDir : String} {req : ReportTestcaseWithNoResultRequest}

/-- A stored file is read back exactly if that does not overflow the buffer. -/
theorem loads_iff {host : Host} {content : Bytes}
    (hfile : host.files (generateTestcasePathAndFilename req.id m_testcaseDir) = some content) :
    (∃ rawBytes, loadTestcaseInMemory (limited host.files lm.readLimit) lm.heap req.id
      m_testcaseDir = .ok rawBytes) ↔ lm.Loads content := by
  unfold loadTestcaseInMemory limited ReportEnv.Loads
  rw [hfile]
  cases lm.readLimit with
  | none => simp
  | some limit =>
    simp only [Option.bind_some, Option.map_some, Option.mem_def, Option.some.injEq,
      forall_eq', readBuffer, List.take_take, List.length_take]
    rw [min_comm content.length limit, min_assoc, min_self]
    split
    case isTrue hle => exact iff_of_true ⟨_, rfl⟩ hle
    case isFalse hlt => exact iff_of_false (by simp) hlt

/-- What the local manager makes of the file that comes with the report. -/
abbrev ReportEnv.stored (lm : ReportEnv) (m_testcaseDir : String)
    (req : ReportTestcaseWithNoResultRequest) : Except Abnormal Stored :=
  storeTestcaseFileOnDisk lm.host lm.store
    (lm.ask req.id.m_serviceDescriptor.m_serviceHostAndPort req.id) req.id m_testcaseDir
    req.testcasefirstchunk req.islastchunk

theorem arrives_iff (content : Bytes) :
    (∃ stored, lm.stored m_testcaseDir req = .ok stored ∧ stored.success = true ∧
      stored.host.files (generateTestcasePathAndFilename req.id m_testcaseDir) = some content) ↔
    Accepts lm m_testcaseDir req ∧ Arrives lm req content := by
  rw [store_received, ← and_assoc]
  rfl

theorem stored_returns_iff :
    (∃ stored, lm.stored m_testcaseDir req = .ok stored) ↔
      ¬ KeepsWaiting lm.host lm.store.turns
          (generateTestcasePathAndFilename req.id m_testcaseDir) ∧
        (Accepts lm m_testcaseDir req → req.islastchunk = false →
          Finishes (lm.ask req.id.m_serviceDescriptor.m_serviceHostAndPort req.id) 1) := by
  rw [store_returns_iff, Accepts, and_imp]

/-- The bytes that come are those that a successful store has written. -/
theorem arrives_of_stored {stored : Stored} (hstore : lm.stored m_testcaseDir req = .ok stored)
    {content : Bytes} (haccepts : Accepts lm m_testcaseDir req)
    (hcontent : Arrives lm req content) :
    stored.success = true ∧
      stored.host.files (generateTestcasePathAndFilename req.id m_testcaseDir) = some content := by
  obtain ⟨stored', hstore', hsuccess, hfile⟩ := (arrives_iff content).mpr ⟨haccepts, hcontent⟩
  obtain rfl : stored = stored' := Except.ok.inj (hstore.symm.trans hstore')
  exact ⟨hsuccess, hfile⟩

/-- A store that does not return, and what it means for the report. -/
theorem not_reaches_of_error {abnormal : Abnormal}
    (hstore : lm.stored m_testcaseDir req = .error abnormal) :
    ¬ Returns lm m_testcaseDir req ∧ ¬ ReachesDatabase lm m_testcaseDir req := by
  constructor
  · rintro ⟨hwait, haccepts⟩
    obtain ⟨stored, hok⟩ := stored_returns_iff.mpr ⟨hwait, fun h => (haccepts h).1⟩
    rw [hstore] at hok
    cases hok
  · rintro ⟨haccepts, content, hcontent, _⟩
    obtain ⟨stored, hok, _⟩ := (arrives_iff content).mpr ⟨haccepts, hcontent⟩
    rw [hstore] at hok
    cases hok

/-- A store that fails. -/
theorem not_reaches_of_refused {stored : Stored}
    (hstore : lm.stored m_testcaseDir req = .ok stored) (hsuccess : stored.success = false) :
    Returns lm m_testcaseDir req ∧ ¬ ReachesDatabase lm m_testcaseDir req := by
  have hno : ∀ content, Accepts lm m_testcaseDir req → ¬ Arrives lm req content := by
    intro content haccepts hcontent
    rw [(arrives_of_stored hstore haccepts hcontent).1] at hsuccess
    cases hsuccess
  obtain ⟨hwait, hfinishes⟩ := stored_returns_iff.mp ⟨stored, hstore⟩
  refine ⟨⟨hwait, fun h => ⟨hfinishes h, fun content hcontent => ?_⟩⟩, ?_⟩
  · exact absurd hcontent (hno content h)
  · rintro ⟨haccepts, content, hcontent, _⟩
    exact hno content haccepts hcontent

/-- After a store that succeeds, all depends on reading the file back. -/
theorem reaches_of_stored {stored : Stored} (hstore : lm.stored m_testcaseDir req = .ok stored)
    (hsuccess : stored.success = true) {content : Bytes}
    (hfile : stored.host.files (generateTestcasePathAndFilename req.id m_testcaseDir) =
      some content) :
    (Returns lm m_testcaseDir req ↔ lm.Loads content) ∧
      (ReachesDatabase lm m_testcaseDir req ↔ lm.Loads content) := by
  obtain ⟨haccepts, hcontent⟩ := (arrives_iff content).mp ⟨stored, hstore, hsuccess, hfile⟩
  have hunique : ∀ content', Arrives lm req content' → content' = content := by
    intro content' hcontent'
    have hfile' := (arrives_of_stored hstore haccepts hcontent').2
    exact Option.some.inj (hfile'.symm.trans hfile)
  obtain ⟨hwait, hfinishes⟩ := stored_returns_iff.mp ⟨stored, hstore⟩
  constructor
  · constructor
    · rintro ⟨_, hreturns⟩
      exact (hreturns haccepts).2 content hcontent
    · intro hloads
      refine ⟨hwait, fun h => ⟨hfinishes h, fun content' hcontent' => ?_⟩⟩
      rwa [hunique content' hcontent']
  · constructor
    · rintro ⟨_, content', hcontent', hloads⟩
      rwa [← hunique content' hcontent']
    · exact fun hloads => ⟨haccepts, content, hcontent, hloads⟩

/-- The handler does not return and does not get to the database, or it returns and its
testcase has got a row, or lost it, or nothing has changed. -/
theorem handle_cases (lm : ReportEnv) (db : LMDatabase) (m_testcaseDir : String)
    (req : ReportTestcaseWithNoResultRequest) :
    (¬ Returns lm m_testcaseDir req ∧ ¬ ReachesDatabase lm m_testcaseDir req ∧
      ∃ abnormal, handleReportTestcaseWithNoResultRequest lm db m_testcaseDir req =
        .error abnormal) ∨
    (Returns lm m_testcaseDir req ∧ ∃ success db' host',
      handleReportTestcaseWithNoResultRequest lm db m_testcaseDir req =
        .ok (success, db', host') ∧
      ∀ creator, db'.HasNoResponse creator ↔
        (creator = req.id.key ∧ Stores lm m_testcaseDir req) ∨
        (db.HasNoResponse creator ∧ ¬ (creator = req.id.key ∧ Loses lm m_testcaseDir req))) := by
  unfold handleReportTestcaseWithNoResultRequest Stores Loses
  cases hstore : lm.stored m_testcaseDir req with
  | error abnormal =>
    obtain ⟨hreturns, hreaches⟩ := not_reaches_of_error hstore
    rw [ReportEnv.stored] at hstore
    rw [hstore]
    exact .inl ⟨hreturns, hreaches, abnormal, rfl⟩
  | ok stored =>
    cases hsuccess : stored.success
    · obtain ⟨hreturns, hreaches⟩ := not_reaches_of_refused hstore hsuccess
      rw [ReportEnv.stored] at hstore
      rw [hstore]
      refine .inr ⟨hreturns, false, db, stored.host, ?_, ?_⟩
      · simp [Except.bind, hsuccess]
      · simp [hreaches]
    obtain ⟨content, hfile⟩ := store_written hstore hsuccess
    obtain ⟨hreturns, hreaches⟩ := reaches_of_stored hstore hsuccess hfile
    rw [ReportEnv.stored] at hstore
    rw [hreturns, hreaches, hstore]
    cases hload : loadTestcaseInMemory (limited stored.host.files lm.readLimit) lm.heap req.id
      m_testcaseDir with
    | error abnormal =>
      have hloads : ¬ lm.Loads content := by
        rw [← loads_iff hfile, hload]
        simp
      refine .inl ⟨hloads, hloads, abnormal, ?_⟩
      simp [Except.bind, hsuccess, addEntryToInterestingTestcasesTable, hload, Except.map]
    | ok rawBytes =>
      have hloads : lm.Loads content := (loads_iff hfile).mp ⟨rawBytes, hload⟩
      obtain ⟨db', hentry, hrows⟩ := addEntry_hasNoResponse lm.accepts db
        stored.host.m_setOfFilesToDelete req.parentid hload
      let marked := insert (generateTestcasePathAndFilename req.id m_testcaseDir)
        stored.host.m_setOfFilesToDelete
      refine .inr ⟨hloads, lm.accepts .deleteInteresting, db',
        { stored.host with m_setOfFilesToDelete := marked }, ?_, ?_⟩
      · simp only [Except.bind, hsuccess, hentry]
        rfl
      · simpa [hloads] using hrows

end Handler

end Fluffi.LocalManager
