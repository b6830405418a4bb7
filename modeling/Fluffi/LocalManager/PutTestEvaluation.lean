import Fluffi.Shared.Transfer
import Fluffi.LocalManager.InterestingTestcases
import Fluffi.LocalManager.CompletedCache

/-! The handler of evaluations at the local manager. It marks the testcase as
completed first, then changes the rating of the parent, and for a testcase to keep
it stores the file, inserts the testcase and records what its type asks for. Each
step may fail. -/

namespace Fluffi.LocalManager

open Shared

/-! ### The statements of the handler -/

def addDeltaToTestcaseRating (accepts : Statement → Bool) (db : LMDatabase)
    (tcID : FluffiTestcaseID) (ratingDelta : ℤ) : Bool × LMDatabase :=
  if ratingDelta = 0 then (true, db)
  else if accepts .updateRating then
    (true, db.updateInteresting tcID.key
      (fun row => { row with Rating := row.Rating + ratingDelta }) (fun _ => rfl) fun _ => rfl)
  else (false, db)

def setTestcaseType (accepts : Statement → Bool) (db : LMDatabase) (tcID : FluffiTestcaseID)
    (tcType : TestCaseType) : Bool × LMDatabase :=
  if accepts .updateType then
    (true, db.updateInteresting tcID.key (fun row => { row with TestCaseType := tcType })
      (fun _ => rfl) fun _ => rfl)
  else (false, db)

/-- A row that `rowsOf` finds alone. -/
theorem mem_of_rowsOf_eq {db : LMDatabase} {creator : TestcaseKey} {row : InterestingTestcase}
    (h : db.rowsOf creator = [row]) : row ∈ db.interesting_testcases :=
  List.mem_of_mem_filter (h ▸ List.mem_singleton_self row : row ∈ db.rowsOf creator)

/-- Without a row the subselect is NULL, which the column does not take. -/
def addEntryToCrashDescriptionsTable (accepts : Statement → Bool) (db : LMDatabase)
    (tcID : FluffiTestcaseID) (crashFootprint : String) : Bool × LMDatabase :=
  match hrows : db.rowsOf tcID.key with
  | [row] =>
    if accepts .replaceCrash then
      (true, db.replaceCrash row (mem_of_rowsOf_eq hrows) crashFootprint)
    else (false, db)
  | _ => (false, db)

def addBlocksToCoveredBlocks (accepts : Statement → Bool) (db : LMDatabase)
    (tcID : FluffiTestcaseID) (basicBlocks : Finset FluffiBasicBlock) : Bool × LMDatabase :=
  if accepts .selectID then
    match hrows : db.rowsOf tcID.key with
    | [row] =>
      if basicBlocks.card = 0 then (true, db)
      else if accepts .insertBlocks then
        (true, db.insertBlocks row (mem_of_rowsOf_eq hrows) basicBlocks)
      else (false, db)
    | _ => (false, db)
  else (false, db)

/-! ### The handler -/

/-- What the handler and its local manager hold. -/
structure LMState where
  cache : CompletedCache
  db : LMDatabase
  host : Host

/-- What one request meets: the database, the clock, the garbage collector and the
file system, the evaluator that is asked for chunks, and uninitialised memory. -/
structure RequestEnv where
  accepts : Statement → Bool
  now : ℤ
  nowAfterFlush : ℤ
  store : StoreEnv
  ask : ℕ → Except Abnormal (Option GetTestCaseChunkResponse)
  heap : ℕ → UInt8

/-- `LMDatabaseManager::defaultInitialPopulationRating` -/
def defaultInitialPopulationRating : ℤ := 10000

def tcTypeOf : ExitType → TestCaseType
  | .CleanExit => .Population
  | .Hang => .Hang
  | .Exception_AccessViolation => .Exception_AccessViolation
  | .Exception_Other => .Exception_Other
  | .unknown => .Exception_Other

/-- What is recorded once the testcase itself is: the crash of a crashing one, the
blocks of a population entry, which is then unlocked. -/
def recordDetails (accepts : Statement → Bool) (db : LMDatabase) (req : PutTestEvaluationRequest)
    (tcType : TestCaseType) : Bool × LMDatabase :=
  if tcType = .Exception_AccessViolation ∨ tcType = .Exception_Other then
    addEntryToCrashDescriptionsTable accepts db req.id req.result.m_crashFootprint
  else if tcType = .Population then
    let (success, db) := addBlocksToCoveredBlocks accepts db req.id req.result.m_blocks.toFinset
    if success then setTestcaseType accepts db req.id .Population else (false, db)
  else (true, db)

/-- The branch `TestEvaluation::Keep`. -/
def keepTestcase (m_testcaseDir : String) (env : RequestEnv) (s : LMState)
    (req : PutTestEvaluationRequest) : Except Abnormal (Bool × LMState) :=
  (storeTestcaseFileOnDisk s.host env.store env.ask req.id m_testcaseDir req.testcasefirstchunk
      req.islastchunk).bind fun stored =>
    if stored.success then
      let tcType := tcTypeOf req.result.m_exitType
      (addEntryToInterestingTestcasesTable env.accepts stored.host.disk env.heap s.db
          stored.host.m_setOfFilesToDelete req.id req.parentid
          (if tcType = .Population then defaultInitialPopulationRating else 0) m_testcaseDir
          (if tcType = .Population then .Locked else tcType)).map fun (success, db, marked) =>
        let host := { stored.host with m_setOfFilesToDelete := marked }
        if success then
          let (success, db) := recordDetails env.accepts db req tcType
          (success, { s with db := db, host := host })
        else (false, { s with db := db, host := host })
    else .ok (false, { s with host := stored.host })

/-- `handleFLUFFIMessage`: the success flag of the response and what the local
manager holds afterwards. -/
def handlePutTestEvaluationRequest (m_testcaseDir : String) (env : RequestEnv) (s : LMState)
    (req : PutTestEvaluationRequest) : Except Abnormal (Bool × LMState) :=
  let (success, cache, db) :=
    s.cache.markTestcaseAsCompleted env.accepts s.db req.id env.now env.nowAfterFlush
  if success then
    let (success, db) := addDeltaToTestcaseRating env.accepts db req.parentid req.parentratingdelta
    let s := { s with cache := cache, db := db }
    if success then
      match req.eval with
      | .Discard => .ok (true, s)
      | .Keep => keepTestcase m_testcaseDir env s req
      | .unknown => .ok (true, s)
    else .ok (false, s)
  else .ok (false, { s with cache := cache, db := db })

end Fluffi.LocalManager
