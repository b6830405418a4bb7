import Fluffi.LocalManager.PutTestEvaluation
import Fluffi.Shared.ReceivedFiles

/-! Evaluations that the handler refuses. Whatever the answer, the testcase is recorded as
completed, unless the flush has cut its GUID, so a refused evaluation can be retried exactly when no
step fails or the flush did that. -/

namespace Fluffi.LocalManager

open Shared

/-! ### Every exit leaves the testcase completed -/

/-- The testcase is in the cache or in the table. -/
def Recorded (k : TestcaseKey) (c : CompletedCache) (db : LMDatabase) : Prop :=
  k ∈ c.m_completedTestcases_notYetPushedToDB ∨ k ∈ db.completed_testcases

variable {accepts : Statement → Bool} {db : LMDatabase} {req : PutTestEvaluationRequest}
  {m_testcaseDir : String} {env : RequestEnv} {s s' : LMState}

/-- The testcase is flushed at once, and the row that is made for it is another one's. -/
structure CutAway (accepts : Statement → Bool) (c : CompletedCache) (db : LMDatabase)
    (testcaseID : FluffiTestcaseID) (now : ℤ) : Prop where
  due : (c.insertID testcaseID).FlushDue now
  fits : ∀ k ∈ (c.insertID testcaseID).m_completedTestcases_notYetPushedToDB, Fits k
  accepted : accepts .insertCompleted = true
  cut : ¬ Whole testcaseID.key
  absent : testcaseID.key ∉ db.completed_testcases

/-- The rows of a flush have no zero byte, and all others are among them. -/
theorem mem_insertedRows {ks : Finset TestcaseKey} {k : TestcaseKey} (hk : k ∈ ks) :
    k ∈ ks.val.map insertedRow ↔ Whole k := by
  constructor
  · intro h
    obtain ⟨k', -, rfl⟩ := Multiset.mem_map.mp h
    exact whole_insertedRow k'
  · exact fun h => Multiset.mem_map.mpr ⟨k, hk, insertedRow_eq_self h⟩

theorem mark_recorded_iff (accepts : Statement → Bool) (c : CompletedCache) (db : LMDatabase)
    (testcaseID : FluffiTestcaseID) (now nowAfterFlush : ℤ) :
    Recorded testcaseID.key (c.markTestcaseAsCompleted accepts db testcaseID now nowAfterFlush).2.1
        (c.markTestcaseAsCompleted accepts db testcaseID now nowAfterFlush).2.2 ↔
      ¬ CutAway accepts c db testcaseID now := by
  have hin : testcaseID.key ∈ (c.insertID testcaseID).m_completedTestcases_notYetPushedToDB :=
    Finset.mem_insert_self _ _
  rcases mark_cases accepts c db testcaseID now nowAfterFlush with
    ⟨hdue, heq⟩ | ⟨hdue, hfits, haccepts, heq⟩ | ⟨_, hno, heq⟩
  · rw [heq]
    exact iff_of_true (.inl hin) fun h => hdue h.due
  · rw [heq]
    have hrows : Recorded testcaseID.key ⟨∅, nowAfterFlush, c.m_forceFlushAfterMS⟩
        (db.insertCompleted ((c.insertID
          testcaseID).m_completedTestcases_notYetPushedToDB.val.map insertedRow)) ↔
        testcaseID.key ∈ db.completed_testcases ∨ Whole testcaseID.key := by
      rw [← mem_insertedRows hin, ← Multiset.mem_add]
      exact or_iff_right (Finset.notMem_empty _)
    rw [hrows]
    constructor
    · rintro (hpresent | hwhole) hcut
      · exact hcut.absent hpresent
      · exact hcut.cut hwhole
    · intro hcut
      by_contra hneither
      rw [not_or] at hneither
      exact hcut ⟨hdue, hfits, haccepts, hneither.2, hneither.1⟩
  · rw [heq]
    exact iff_of_true (.inl hin) fun h => hno ⟨h.fits, h.accepted⟩

theorem addDelta_completed (tcID : FluffiTestcaseID) (ratingDelta : ℤ) :
    (addDeltaToTestcaseRating accepts db tcID ratingDelta).2.completed_testcases =
      db.completed_testcases := by
  unfold addDeltaToTestcaseRating
  split
  · rfl
  · split <;> rfl

theorem setType_completed (tcID : FluffiTestcaseID) (tcType : TestCaseType) :
    (setTestcaseType accepts db tcID tcType).2.completed_testcases = db.completed_testcases := by
  unfold setTestcaseType
  split <;> rfl

theorem addCrash_completed (tcID : FluffiTestcaseID) (crashFootprint : String) :
    (addEntryToCrashDescriptionsTable accepts db tcID crashFootprint).2.completed_testcases =
      db.completed_testcases := by
  unfold addEntryToCrashDescriptionsTable
  split
  · split <;> rfl
  · rfl

theorem addBlocks_completed (accepts : Statement → Bool) (db : LMDatabase)
    (tcID : FluffiTestcaseID) (basicBlocks : Finset FluffiBasicBlock) :
    (addBlocksToCoveredBlocks accepts db tcID basicBlocks).2.completed_testcases =
      db.completed_testcases := by
  unfold addBlocksToCoveredBlocks
  split
  · split
    · split
      · rfl
      · split <;> rfl
    · rfl
  · rfl

theorem recordDetails_completed (tcType : TestCaseType) :
    (recordDetails accepts db req tcType).2.completed_testcases = db.completed_testcases := by
  unfold recordDetails
  split
  · exact addCrash_completed _ _
  · split
    · have hblocks := addBlocks_completed accepts db req.id
        req.result.m_blocks.toFinset
      cases hadd : addBlocksToCoveredBlocks accepts db req.id req.result.m_blocks.toFinset with
      | mk success db' =>
        rw [hadd] at hblocks
        cases success
        · exact hblocks
        · exact (setType_completed _ _).trans hblocks
    · rfl

/-! ### When the steps succeed -/

theorem mark_success_iff (accepts : Statement → Bool) (c : CompletedCache) (db : LMDatabase)
    (testcaseID : FluffiTestcaseID) (now nowAfterFlush : ℤ) :
    (c.markTestcaseAsCompleted accepts db testcaseID now nowAfterFlush).1 = true ↔
      ((c.insertID testcaseID).FlushDue now →
        (∀ k ∈ (c.insertID testcaseID).m_completedTestcases_notYetPushedToDB, Fits k) ∧
          accepts .insertCompleted = true) := by
  rcases mark_cases accepts c db testcaseID now nowAfterFlush with
    ⟨hdue, heq⟩ | ⟨_, hfit, haccepts, heq⟩ | ⟨hdue, hno, heq⟩
  · exact iff_of_true (congrArg Prod.fst heq) fun h => absurd h hdue
  · exact iff_of_true (congrArg Prod.fst heq) fun _ => ⟨hfit, haccepts⟩
  · rw [heq]
    exact iff_of_false Bool.false_ne_true fun h => hno (h hdue)

theorem addDelta_success_iff (accepts : Statement → Bool) (db : LMDatabase)
    (tcID : FluffiTestcaseID) (ratingDelta : ℤ) :
    (addDeltaToTestcaseRating accepts db tcID ratingDelta).1 = true ↔
      (ratingDelta ≠ 0 → accepts .updateRating = true) := by
  unfold addDeltaToTestcaseRating
  by_cases hzero : ratingDelta = 0
  · simp [hzero]
  · cases haccepts : accepts .updateRating <;> simp [hzero]

theorem addCrash_success_iff (tcID : FluffiTestcaseID) (crashFootprint : String) :
    (addEntryToCrashDescriptionsTable accepts db tcID crashFootprint).1 = true ↔
      db.rowsOf tcID.key ≠ [] ∧ accepts .replaceCrash = true := by
  unfold addEntryToCrashDescriptionsTable
  split
  next row hrows =>
    have hsome : db.rowsOf tcID.key ≠ [] := by simp [hrows]
    cases accepts .replaceCrash <;> simp [hsome]
  next hno =>
    rcases db.rowsOf_cases tcID.key with hnil | ⟨row, hrows⟩
    · simp [hnil]
    · exact absurd hrows (hno row)

theorem addBlocks_success_iff (accepts : Statement → Bool) (db : LMDatabase)
    (tcID : FluffiTestcaseID) (basicBlocks : Finset FluffiBasicBlock) :
    (addBlocksToCoveredBlocks accepts db tcID basicBlocks).1 = true ↔
      accepts .selectID = true ∧ db.rowsOf tcID.key ≠ [] ∧
        (basicBlocks.card ≠ 0 → accepts .insertBlocks = true) := by
  unfold addBlocksToCoveredBlocks
  cases hselect : accepts .selectID
  · simp
  rw [if_pos rfl]
  split
  next row hrows =>
    have hsome : db.rowsOf tcID.key ≠ [] := by simp [hrows]
    by_cases hzero : basicBlocks.card = 0
    · simp [hzero, hsome]
    · rw [if_neg hzero]
      cases accepts .insertBlocks <;> simp [hzero, hsome]
  next hno =>
    rcases db.rowsOf_cases tcID.key with hnil | ⟨row, hrows⟩
    · simp [hnil]
    · exact absurd hrows (hno row)

/-- What recording the testcase needs of the database. -/
structure Keepable (accepts : Statement → Bool) (req : PutTestEvaluationRequest) : Prop where
  delete : accepts .deleteInteresting = true
  crash : tcTypeOf req.result.m_exitType = .Exception_AccessViolation ∨
      tcTypeOf req.result.m_exitType = .Exception_Other →
    accepts .insertInteresting = true ∧ accepts .replaceCrash = true
  population : tcTypeOf req.result.m_exitType = .Population →
    accepts .insertInteresting = true ∧ accepts .selectID = true ∧
      (req.result.m_blocks ≠ [] → accepts .insertBlocks = true) ∧ accepts .updateType = true

theorem setType_success (tcID : FluffiTestcaseID) (tcType : TestCaseType) :
    (setTestcaseType accepts db tcID tcType).1 = accepts .updateType := by
  unfold setTestcaseType
  cases accepts .updateType <;> rfl

theorem recordDetails_success_iff (hdelete : accepts .deleteInteresting = true)
    (hrows : db.rowsOf req.id.key ≠ [] ↔ accepts .insertInteresting = true) :
    (recordDetails accepts db req (tcTypeOf req.result.m_exitType)).1 = true ↔
      Keepable accepts req := by
  have hblocks : req.result.m_blocks.toFinset.card ≠ 0 ↔ req.result.m_blocks ≠ [] := by
    rw [ne_eq, Finset.card_eq_zero, List.toFinset_eq_empty_iff]
  unfold recordDetails
  by_cases hcrash : tcTypeOf req.result.m_exitType = .Exception_AccessViolation ∨
      tcTypeOf req.result.m_exitType = .Exception_Other
  · have hpop : tcTypeOf req.result.m_exitType ≠ .Population := by
      rcases hcrash with h | h <;> rw [h] <;> decide
    rw [if_pos hcrash, addCrash_success_iff, hrows]
    exact ⟨fun h => ⟨hdelete, fun _ => h, fun hp => absurd hp hpop⟩, fun h => h.crash hcrash⟩
  · rw [if_neg hcrash]
    by_cases hpop : tcTypeOf req.result.m_exitType = .Population
    · rw [if_pos hpop]
      have hadd := addBlocks_success_iff accepts db req.id
        req.result.m_blocks.toFinset
      rw [hrows, hblocks] at hadd
      cases hresult : addBlocksToCoveredBlocks accepts db req.id req.result.m_blocks.toFinset with
      | mk success db' =>
        rw [hresult] at hadd
        cases success
        · have hno : ¬ (accepts .selectID = true ∧ accepts .insertInteresting = true ∧
              (req.result.m_blocks ≠ [] → accepts .insertBlocks = true)) := fun h =>
            Bool.false_ne_true (hadd.mpr h)
          refine iff_of_false Bool.false_ne_true fun h => hno ?_
          obtain ⟨hinsert, hselect, hblock, _⟩ := h.population hpop
          exact ⟨hselect, hinsert, hblock⟩
        · obtain ⟨hselect, hinsert, hblock⟩ := hadd.mp rfl
          show (setTestcaseType accepts db' req.id .Population).1 = true ↔ _
          rw [setType_success]
          exact ⟨fun h => ⟨hdelete, fun hc => absurd hc hcrash,
            fun _ => ⟨hinsert, hselect, hblock, h⟩⟩, fun h => (h.population hpop).2.2.2⟩
    · rw [if_neg hpop]
      exact iff_of_true rfl ⟨hdelete, fun hc => absurd hc hcrash, fun hp => absurd hp hpop⟩

/-- The branch once the file is stored and loaded. -/
theorem keepTestcase_eq {stored : Stored} {rawBytes : Bytes}
    (hstore : storeTestcaseFileOnDisk s.host env.store env.ask req.id m_testcaseDir
      req.testcasefirstchunk req.islastchunk = .ok stored) (hsuccess : stored.success = true)
    (hload : loadTestcaseInMemory stored.host.disk env.heap req.id m_testcaseDir = .ok rawBytes) :
    ∃ success s', keepTestcase m_testcaseDir env s req = .ok (success, s') ∧
      s'.cache = s.cache ∧ s'.db.completed_testcases = s.db.completed_testcases ∧
      (success = true ↔ Keepable env.accepts req) := by
  obtain ⟨db', heq, hcompleted, hrows⟩ := addEntry_eq env.accepts s.db
    stored.host.m_setOfFilesToDelete req.parentid
    (if tcTypeOf req.result.m_exitType = .Population then defaultInitialPopulationRating else 0)
    (if tcTypeOf req.result.m_exitType = .Population then .Locked
      else tcTypeOf req.result.m_exitType) hload
  rw [keepTestcase, hstore]
  simp only [Except.bind, hsuccess, if_true, heq]
  cases hdelete : env.accepts .deleteInteresting
  · refine ⟨_, _, rfl, rfl, hcompleted, iff_of_false Bool.false_ne_true fun h => ?_⟩
    rw [h.delete] at hdelete
    cases hdelete
  · have hpresent : db'.rowsOf req.id.key ≠ [] ↔ env.accepts .insertInteresting = true := by
      rw [hrows hdelete]
      cases env.accepts .insertInteresting <;> simp
    exact ⟨_, _, rfl, rfl, (recordDetails_completed _).trans hcompleted,
      recordDetails_success_iff hdelete hpresent⟩

/-- The file is stored, and the testcase is recorded if its bytes can be loaded. -/
def KeptOnceStored (m_testcaseDir : String) (env : RequestEnv) (host : Host)
    (req : PutTestEvaluationRequest) : Prop :=
  ∀ stored, storeTestcaseFileOnDisk host env.store env.ask req.id m_testcaseDir
      req.testcasefirstchunk req.islastchunk = .ok stored →
    stored.success = true ∧ ∀ rawBytes,
      loadTestcaseInMemory stored.host.disk env.heap req.id m_testcaseDir = .ok rawBytes →
        Keepable env.accepts req

/-- There is room for the file, and it can be opened. -/
def Writable (m_testcaseDir : String) (env : RequestEnv) (host : Host)
    (req : PutTestEvaluationRequest) : Prop :=
  HasRoom host env.store.turns (generateTestcasePathAndFilename req.id m_testcaseDir) ∧
    env.store.opens = true

/-- What it takes to keep a testcase: a place for the file and an answer to every
request for a chunk, and then, unless the bytes sent are too many to be loaded, a
database that accepts the statements. -/
structure Kept (m_testcaseDir : String) (env : RequestEnv) (host : Host)
    (req : PutTestEvaluationRequest) : Prop where
  stored : KeepsWaiting host env.store.turns
      (generateTestcasePathAndFilename req.id m_testcaseDir) ∨
    Writable m_testcaseDir env host req ∧ (req.islastchunk = false → Answers env.ask 1)
  recorded : Writable m_testcaseDir env host req → ∀ content,
    Received env.ask req.testcasefirstchunk req.islastchunk content →
      content.length < 2 ^ 32 → Keepable env.accepts req

theorem keptOnceStored_iff {host : Host} :
    KeptOnceStored m_testcaseDir env host req ↔ Kept m_testcaseDir env host req := by
  have hdisk : ∀ {stored : Stored} {content : Bytes}, stored.host.files
      (generateTestcasePathAndFilename req.id m_testcaseDir) = some content →
        stored.host.disk (generateTestcasePathAndFilename req.id m_testcaseDir) =
          some (.healthy content) := fun h => by
    rw [Host.disk, h]
    rfl
  have hsuccess : (∀ stored, storeTestcaseFileOnDisk host env.store env.ask req.id m_testcaseDir
      req.testcasefirstchunk req.islastchunk = .ok stored → stored.success = true) ↔ _ :=
    store_success_iff req.testcasefirstchunk req.islastchunk
  constructor
  · intro hkept
    refine ⟨?_, fun hwritable content hreceived hsmall => ?_⟩
    · rcases hsuccess.mp fun stored hstore => (hkept stored hstore).1 with
        hwait | ⟨hroom, hopens, h⟩
      · exact .inl hwait
      · exact .inr ⟨⟨hroom, hopens⟩, h⟩
    · obtain ⟨stored, hstore, _, hfile⟩ := (store_received req.testcasefirstchunk req.islastchunk
        content).mpr ⟨hwritable.1, hwritable.2, hreceived⟩
      exact (hkept stored hstore).2 content
        ((loadTestcaseInMemory_healthy env.heap (hdisk hfile)).mpr hsmall)
  · rintro ⟨hstored, hrecorded⟩ stored hstore
    have htrue : stored.success = true := by
      refine hsuccess.mpr ?_ stored hstore
      rcases hstored with hwait | ⟨⟨hroom, hopens⟩, h⟩
      · exact .inl hwait
      · exact .inr ⟨hroom, hopens, h⟩
    refine ⟨htrue, fun rawBytes hload => ?_⟩
    obtain ⟨content, hfile⟩ := store_written hstore htrue
    obtain ⟨hroom, hopens, hreceived⟩ := (store_received req.testcasefirstchunk req.islastchunk
      content).mp ⟨stored, hstore, htrue, hfile⟩
    exact hrecorded ⟨hroom, hopens⟩ content hreceived
      (loadTestcaseInMemory_small (hdisk hfile) hload)

/-- The branch leaves what is completed alone, and it answers false unless the
testcase is kept. -/
theorem keepTestcase_spec (m_testcaseDir : String) (env : RequestEnv) (s : LMState)
    (req : PutTestEvaluationRequest) :
    (∀ success s', keepTestcase m_testcaseDir env s req = .ok (success, s') →
      s'.cache = s.cache ∧ s'.db.completed_testcases = s.db.completed_testcases) ∧
    ((∀ s', keepTestcase m_testcaseDir env s req ≠ .ok (false, s')) ↔
      Kept m_testcaseDir env s.host req) := by
  rw [← keptOnceStored_iff, KeptOnceStored]
  cases hstore : storeTestcaseFileOnDisk s.host env.store env.ask req.id m_testcaseDir
    req.testcasefirstchunk req.islastchunk with
  | error abnormal =>
    have hkeep : keepTestcase m_testcaseDir env s req = .error abnormal := by
      rw [keepTestcase, hstore]
      rfl
    simp [hkeep]
  | ok stored =>
    cases hsuccess : stored.success
    · have hkeep : keepTestcase m_testcaseDir env s req =
          .ok (false, { s with host := stored.host }) := by
        rw [keepTestcase, hstore]
        simp [Except.bind, hsuccess]
      rw [hkeep]
      refine ⟨fun success s' heq => ?_, iff_of_false (fun hall => hall _ rfl) fun hkept => ?_⟩
      · rw [← (Prod.mk.inj (Except.ok.inj heq)).2]
        exact ⟨rfl, rfl⟩
      · rw [(hkept stored rfl).1] at hsuccess
        cases hsuccess
    · cases hload : loadTestcaseInMemory stored.host.disk env.heap req.id m_testcaseDir with
      | error abnormal =>
        have hkeep : keepTestcase m_testcaseDir env s req = .error abnormal := by
          rw [keepTestcase, hstore]
          simp [Except.bind, hsuccess, addEntryToInterestingTestcasesTable, hload, Except.map]
        simp [hkeep, hsuccess, hload]
      | ok rawBytes =>
        obtain ⟨success, s', hkeep, hcache, hcompleted, hiff⟩ :=
          keepTestcase_eq hstore hsuccess hload
        rw [hkeep]
        refine ⟨fun success₂ s₂ heq => ?_, ?_⟩
        · rw [← (Prod.mk.inj (Except.ok.inj heq)).2]
          exact ⟨hcache, hcompleted⟩
        constructor
        · intro hall stored₂ heq
          obtain rfl := Except.ok.inj heq
          refine ⟨hsuccess, fun _ _ => hiff.mp ?_⟩
          by_contra hfalse
          rw [Bool.not_eq_true] at hfalse
          exact hall s' (by rw [hfalse])
        · intro hkept s₂ heq
          have htrue := hiff.mpr ((hkept stored rfl).2 rawBytes hload)
          rw [htrue] at heq
          cases heq

/-! ### Failed evaluations -/

/-- No step of the handler fails. -/
structure StepsSucceed (m_testcaseDir : String) (env : RequestEnv) (s : LMState)
    (req : PutTestEvaluationRequest) : Prop where
  flush : (s.cache.insertID req.id).FlushDue env.now →
    (∀ k ∈ (s.cache.insertID req.id).m_completedTestcases_notYetPushedToDB, Fits k) ∧
      env.accepts .insertCompleted = true
  rating : req.parentratingdelta ≠ 0 → env.accepts .updateRating = true
  kept : req.eval = .Keep → Kept m_testcaseDir env s.host req

/-- A request that is answered with success=false leaves the testcase unrecorded. -/
def Retryable (k : TestcaseKey) : Except Abnormal (Bool × LMState) → Prop
  | .ok (false, s') => k ∉ s'.cache.m_completedTestcases_notYetPushedToDB ∧
      k ∉ s'.db.completed_testcases
  | _ => True

theorem retryable_refused_iff :
    Retryable req.id.key (.ok (false, s')) ↔ ¬ Recorded req.id.key s'.cache s'.db :=
  not_or.symm

/-- A refused evaluation can be retried exactly when no step fails, so that none is refused,
or when the flush has cut its GUID: in every other case the testcase is recorded as completed. -/
theorem retryable_iff (m_testcaseDir : String) (env : RequestEnv) (s : LMState)
    (req : PutTestEvaluationRequest) :
    Retryable req.id.key (handlePutTestEvaluationRequest m_testcaseDir env s req) ↔
      StepsSucceed m_testcaseDir env s req ∨
        CutAway env.accepts s.cache s.db req.id env.now := by
  have hrecorded := mark_recorded_iff env.accepts s.cache s.db req.id env.now env.nowAfterFlush
  have hflush := mark_success_iff env.accepts s.cache s.db req.id env.now env.nowAfterFlush
  have hcut : CutAway env.accepts s.cache s.db req.id env.now →
      (s.cache.markTestcaseAsCompleted env.accepts s.db req.id env.now env.nowAfterFlush).1 =
        true := fun h => hflush.mpr fun _ => ⟨h.fits, h.accepted⟩
  unfold handlePutTestEvaluationRequest
  generalize s.cache.markTestcaseAsCompleted env.accepts s.db req.id env.now env.nowAfterFlush =
    marked at hrecorded hflush hcut ⊢
  obtain ⟨success, cache, db⟩ := marked
  -- an answer false that finds the tables as the first step has left them
  have hrefused : ∀ {s' : LMState}, ¬ StepsSucceed m_testcaseDir env s req →
      (Recorded req.id.key s'.cache s'.db ↔ Recorded req.id.key cache db) →
      (Retryable req.id.key (.ok (false, s')) ↔ StepsSucceed m_testcaseDir env s req ∨
        CutAway env.accepts s.cache s.db req.id env.now) := by
    intro s' hfail hsame
    rw [retryable_refused_iff, hsame, hrecorded, not_not, or_iff_right hfail]
  cases success
  · exact hrefused (fun h => Bool.false_ne_true (hflush.mpr h.flush)) Iff.rfl
  have hrating := addDelta_success_iff env.accepts db req.parentid req.parentratingdelta
  have hrated : Recorded req.id.key cache (addDeltaToTestcaseRating env.accepts db req.parentid
      req.parentratingdelta).2 ↔ Recorded req.id.key cache db := by
    rw [Recorded, addDelta_completed, Recorded]
  simp only [if_true]
  generalize addDeltaToTestcaseRating env.accepts db req.parentid req.parentratingdelta =
    rated at hrating hrated ⊢
  obtain ⟨success, db'⟩ := rated
  cases success
  · exact hrefused (fun h => Bool.false_ne_true (hrating.mpr h.rating)) hrated
  simp only [if_true]
  cases heval : req.eval with
  | Discard => exact iff_of_true trivial (.inl ⟨hflush.mp rfl, hrating.mp rfl, by simp [heval]⟩)
  | unknown => exact iff_of_true trivial (.inl ⟨hflush.mp rfl, hrating.mp rfl, by simp [heval]⟩)
  | Keep =>
    obtain ⟨hsame, hkept⟩ :=
      keepTestcase_spec m_testcaseDir env { s with cache := cache, db := db' } req
    have hsteps : StepsSucceed m_testcaseDir env s req ↔ Kept m_testcaseDir env s.host req :=
      ⟨fun h => h.kept heval, fun h => ⟨hflush.mp rfl, hrating.mp rfl, fun _ => h⟩⟩
    simp only
    cases hresult : keepTestcase m_testcaseDir env { s with cache := cache, db := db' } req with
    | error abnormal =>
      refine iff_of_true trivial (.inl ?_)
      rw [hsteps, ← hkept, hresult]
      simp
    | ok answer =>
      obtain ⟨success, s'⟩ := answer
      cases success
      · obtain ⟨hcache, hcompleted⟩ := hsame false s' hresult
        refine hrefused (fun h => ?_) ?_
        · rw [hsteps, ← hkept] at h
          exact h s' hresult
        · rw [Recorded, hcache, hcompleted]
          exact hrated
      · refine iff_of_true trivial (.inl ?_)
        rw [hsteps, ← hkept, hresult]
        simp

/-- A testcase of several chunks whose second chunk cannot be fetched. -/
def lostChunkRequest : PutTestEvaluationRequest :=
  ⟨⟨⟨"host:1", "guid"⟩, 1⟩, ⟨⟨"host:2", "parent"⟩, 0⟩, .Keep, 0, ⟨.CleanExit, [], "", true⟩,
    [1, 2, 3], false⟩

/-- A database that accepts everything, and an evaluator that does not answer. -/
def silentEvaluator : RequestEnv :=
  ⟨fun _ => true, 1, 1, ⟨[], true⟩, fun _ => .ok none, fun _ => 0⟩

def freshState : LMState := ⟨.new 0 10000, .empty, ⟨fun _ => none, ∅⟩⟩

/-- The evaluation is refused, and the testcase is in the cache of completed ones. -/
theorem refused_but_completed :
    (∃ s', handlePutTestEvaluationRequest "dir" silentEvaluator freshState lostChunkRequest =
        .ok (false, s') ∧
      (⟨"guid", 1⟩ : TestcaseKey) ∈ s'.cache.m_completedTestcases_notYetPushedToDB) ∧
    ¬ Retryable lostChunkRequest.id.key
      (handlePutTestEvaluationRequest "dir" silentEvaluator freshState lostChunkRequest) := by
  have hanswer : ∃ s',
      handlePutTestEvaluationRequest "dir" silentEvaluator freshState lostChunkRequest =
        .ok (false, s') ∧
      (⟨"guid", 1⟩ : TestcaseKey) ∈ s'.cache.m_completedTestcases_notYetPushedToDB :=
    ⟨_, rfl, by decide⟩
  refine ⟨hanswer, fun hretry => ?_⟩
  obtain ⟨s', heq, hmem⟩ := hanswer
  rw [heq] at hretry
  exact hretry.1 hmem

end Fluffi.LocalManager
