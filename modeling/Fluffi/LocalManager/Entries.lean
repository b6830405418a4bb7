import Fluffi.LocalManager.Cleanup
import Fluffi.LocalManager.PutTestEvaluation

/-! What the statements of the local manager leave of the testcases that they are not about: their
rows, the blocks that refer to them, and which of them are the oldest. -/

namespace Fluffi.LocalManager

open Shared Systems

/-- A block as the table has it, with the module ID cast to `unsigned char`. -/
abbrev StoredBlock := UInt8 × UInt64

def storedBlock (b : FluffiBasicBlock) : StoredBlock :=
  (UInt8.ofBitVec (b.m_moduleID.toBitVec.setWidth 8), b.m_rva)

def CoveredBlock.stored (c : CoveredBlock) : StoredBlock := (c.ModuleID, c.Offset)

/-- The row is in the table, with some rating, and no crash is recorded for it. -/
structure HasEntry (db : LMDatabase) (entry : InterestingTestcase) : Prop where
  row : ∃ rating, { entry with Rating := rating } ∈ db.interesting_testcases
  no_crash : ∀ cd ∈ db.crash_descriptions, cd.CreatorTestcaseID ≠ entry.ID

/-- The row stays, and so do the blocks that refer to it. -/
structure KeepsEntry (entry : InterestingTestcase) (db db' : LMDatabase) : Prop where
  stays : HasEntry db' entry
  blocks : ∀ c : CoveredBlock, c.CreatorTestcaseID = entry.ID →
    (c ∈ db'.covered_blocks ↔ c ∈ db.covered_blocks)

/-- Rows are only removed or changed where they are touched. New rows come after all others, no
row becomes one of another type unless it joins or leaves the population, and blocks are only
added out of a list. -/
structure Change (touched : InterestingTestcase → Prop) (blocks : List FluffiBasicBlock)
    (db db' : LMDatabase) : Prop where
  keeps : ∀ entry, HasEntry db entry → ¬ touched entry → KeepsEntry entry db db'
  nextID_le : db.nextID ≤ db'.nextID
  on_top : ∀ type, type ≠ .Population → type ≠ .Inactive_Population →
    ∀ id ∈ db'.held type, id < db.nextID → id ∈ db.held type
  covered : ∀ c ∈ db'.covered_blocks,
    c ∈ db.covered_blocks ∨ ∃ b ∈ blocks, c.stored = storedBlock b

/-- Nothing is touched and no block is added. -/
abbrev Untouched : LMDatabase → LMDatabase → Prop := Change (fun _ => False) []

variable {touched touched' : InterestingTestcase → Prop} {blocks blocks' : List FluffiBasicBlock}
  {db db' db'' : LMDatabase} {accepts : Statement → Bool} {k : TestcaseKey}

namespace Change

theorem refl (touched : InterestingTestcase → Prop) (blocks : List FluffiBasicBlock)
    (db : LMDatabase) : Change touched blocks db db where
  keeps _ h _ := ⟨h, fun _ _ => Iff.rfl⟩
  nextID_le := le_refl _
  on_top _ _ _ _ hid _ := hid
  covered _ hc := .inl hc

theorem trans (h : Change touched blocks db db') (h' : Change touched blocks db' db'') :
    Change touched blocks db db'' where
  keeps entry hentry hfree := by
    have hkept := h.keeps entry hentry hfree
    have hkept' := h'.keeps entry hkept.stays hfree
    exact ⟨hkept'.stays, fun c hc => (hkept'.blocks c hc).trans (hkept.blocks c hc)⟩
  nextID_le := h.nextID_le.trans h'.nextID_le
  on_top type hpop hinactive id hid hlt :=
    h.on_top type hpop hinactive id
      (h'.on_top type hpop hinactive id hid (hlt.trans_le h.nextID_le)) hlt
  covered c hc := (h'.covered c hc).elim (h.covered c) .inr

theorem mono (h : Change touched blocks db db') (htouched : ∀ entry, touched entry → touched' entry)
    (hblocks : blocks ⊆ blocks') : Change touched' blocks' db db' where
  keeps entry hentry hfree := h.keeps entry hentry (mt (htouched entry) hfree)
  nextID_le := h.nextID_le
  on_top := h.on_top
  covered c hc := (h.covered c hc).imp_right fun ⟨b, hb, heq⟩ => ⟨b, hblocks hb, heq⟩

end Change

theorem Untouched.change (h : Untouched db db') : Change touched blocks db db' :=
  h.mono (fun _ hfalse => hfalse.elim) (List.nil_subset _)

/-! ### The statements -/

/-- A change of the rows that keeps IDs and, outside the population, types. -/
theorem held_of_rows (hrows : ∀ row' ∈ db'.interesting_testcases, row'.ID < db.nextID →
      row'.TestCaseType ≠ .Population → row'.TestCaseType ≠ .Inactive_Population →
      ∃ row ∈ db.interesting_testcases, row.ID = row'.ID ∧
        row.TestCaseType = row'.TestCaseType)
    (type : TestCaseType) (hpop : type ≠ .Population) (hinactive : type ≠ .Inactive_Population) :
    ∀ id ∈ db'.held type, id < db.nextID → id ∈ db.held type := by
  intro id hid hlt
  obtain ⟨row', hrow', rfl, rfl⟩ := mem_held.mp hid
  obtain ⟨row, hrow, heq, htype⟩ := hrows row' hrow' hlt hpop hinactive
  exact mem_held.mpr ⟨row, hrow, htype, heq⟩

theorem held_of_subset (h : db'.interesting_testcases ⊆ db.interesting_testcases)
    (type : TestCaseType) (_ : type ≠ .Population) (_ : type ≠ .Inactive_Population) :
    ∀ id ∈ db'.held type, id < db.nextID → id ∈ db.held type := by
  intro id hid _
  obtain ⟨row, hrow, htype, heq⟩ := mem_held.mp hid
  exact mem_held.mpr ⟨row, h hrow, htype, heq⟩

theorem change_deleteInteresting (db : LMDatabase) (creator : TestcaseKey) :
    Change (·.Creator = creator) [] db (db.deleteInteresting creator) where
  keeps entry hentry hfree := by
    obtain ⟨rating, hrow⟩ := hentry.row
    refine ⟨⟨⟨rating, List.mem_filter.mpr ⟨hrow, decide_eq_true hfree⟩⟩, fun cd hcd =>
      hentry.no_crash cd (List.mem_of_mem_filter hcd)⟩, fun c hc => ?_⟩
    rw [LMDatabase.deleteInteresting, Finset.mem_filter, and_iff_left_iff_imp]
    intro _
    rw [Bool.not_eq_true', LMDatabase.refersTo, List.any_eq_false]
    intro other hother heq
    obtain ⟨hother, hcreator⟩ := List.mem_filter.mp hother
    obtain rfl := eq_of_id hother hrow ((of_decide_eq_true heq).trans hc)
    exact hfree (of_decide_eq_true hcreator)
  nextID_le := le_refl _
  on_top := held_of_subset (List.filter_subset_self _)
  covered _ hc := .inl (Finset.mem_of_mem_filter _ hc)

theorem change_insertInteresting {creator parent : TestcaseKey} {rating : ℤ} {rawBytes : Bytes}
    {type : TestCaseType}
    (h : db.insertInteresting creator parent rating rawBytes type = some db') :
    Untouched db db' := by
  simp only [LMDatabase.insertInteresting, Option.dite_none_right_eq_some, Option.some.injEq] at h
  obtain ⟨-, rfl⟩ := h
  refine ⟨fun entry hentry _ => ⟨⟨?_, hentry.no_crash⟩, fun _ _ => Iff.rfl⟩, Nat.le_succ _,
    held_of_rows fun row' hrow' hlt _ _ => ?_, fun _ hc => .inl hc⟩
  · obtain ⟨rating, hrow⟩ := hentry.row
    exact ⟨rating, List.mem_append_left _ hrow⟩
  · rcases List.mem_append.mp hrow' with hrow' | hrow'
    · exact ⟨row', hrow', rfl, rfl⟩
    · rw [List.mem_singleton.mp hrow'] at hlt
      exact (lt_irrefl _ hlt).elim

theorem change_addDelta (accepts : Statement → Bool) (db : LMDatabase) (tcID : FluffiTestcaseID)
    (ratingDelta : ℤ) : Untouched db (addDeltaToTestcaseRating accepts db tcID ratingDelta).2 := by
  unfold addDeltaToTestcaseRating
  split
  · exact .refl _ _ db
  split
  · refine ⟨fun entry hentry _ => ⟨⟨?_, hentry.no_crash⟩, fun _ _ => Iff.rfl⟩, le_refl _,
      held_of_rows fun row' hrow' _ _ _ => ?_, fun _ hc => .inl hc⟩
    · obtain ⟨rating, hrow⟩ := hentry.row
      by_cases hcreator : entry.Creator = tcID.key
      · exact ⟨rating + ratingDelta, List.mem_map.mpr ⟨_, hrow, if_pos hcreator⟩⟩
      · exact ⟨rating, List.mem_map.mpr ⟨_, hrow, if_neg hcreator⟩⟩
    · obtain ⟨row, hrow, rfl⟩ := List.mem_map.mp hrow'
      refine ⟨row, hrow, ?_⟩
      split
      · exact ⟨rfl, rfl⟩
      · exact ⟨rfl, rfl⟩
  · exact .refl _ _ db

theorem change_setType (accepts : Statement → Bool) (db : LMDatabase) (tcID : FluffiTestcaseID)
    {tcType : TestCaseType} (htype : tcType = .Population ∨ tcType = .Inactive_Population) :
    Change (·.Creator = tcID.key) [] db (setTestcaseType accepts db tcID tcType).2 := by
  unfold setTestcaseType
  split
  · refine ⟨fun entry hentry hfree => ⟨⟨?_, hentry.no_crash⟩, fun _ _ => Iff.rfl⟩, le_refl _,
      held_of_rows fun row' hrow' _ hpop hinactive => ?_, fun _ hc => .inl hc⟩
    · obtain ⟨rating, hrow⟩ := hentry.row
      exact ⟨rating, List.mem_map.mpr ⟨_, hrow, if_neg hfree⟩⟩
    · obtain ⟨row, hrow, rfl⟩ := List.mem_map.mp hrow'
      refine ⟨row, hrow, ?_⟩
      split at hpop
      · rename_i hcreator
        rw [if_pos hcreator] at hinactive
        exact (htype.elim hpop hinactive).elim
      · rename_i hcreator
        rw [if_neg hcreator]
        exact ⟨rfl, rfl⟩
  · exact .refl _ _ db

/-- The row of the testcase itself. -/
theorem creator_of_rowsOf {row : InterestingTestcase} (h : db.rowsOf k = [row]) :
    row.Creator = k := by
  have hmem : row ∈ db.rowsOf k := h ▸ List.mem_singleton_self row
  exact of_decide_eq_true (List.mem_filter.mp hmem).2

theorem HasEntry.ne_ID {entry row : InterestingTestcase} (h : HasEntry db entry)
    (hrow : row ∈ db.interesting_testcases) (hne : entry.Creator ≠ row.Creator) :
    row.ID ≠ entry.ID := by
  intro hid
  obtain ⟨rating, hentry⟩ := h.row
  obtain rfl := eq_of_id hrow hentry hid
  exact hne rfl

theorem change_addCrash (accepts : Statement → Bool) (db : LMDatabase) (tcID : FluffiTestcaseID)
    (crashFootprint : String) : Change (·.Creator = tcID.key) [] db
      (addEntryToCrashDescriptionsTable accepts db tcID crashFootprint).2 := by
  unfold addEntryToCrashDescriptionsTable
  split
  · rename_i row hrows
    split
    · refine ⟨fun entry hentry hfree => ⟨⟨hentry.row, fun cd hcd => ?_⟩, fun _ _ => Iff.rfl⟩,
        le_refl _, held_of_subset fun _ hrow => hrow, fun _ hc => .inl hc⟩
      rcases List.mem_append.mp hcd with hcd | hcd
      · exact hentry.no_crash cd (List.mem_of_mem_filter hcd)
      · rw [List.mem_singleton.mp hcd]
        refine hentry.ne_ID (mem_of_rowsOf_eq hrows) ?_
        rw [creator_of_rowsOf hrows]
        exact hfree
    · exact .refl _ _ db
  · exact .refl _ _ db

theorem mem_insertBlocks {row : InterestingTestcase} (hrow : row ∈ db.interesting_testcases)
    {c : CoveredBlock} :
    c ∈ (db.insertBlocks row hrow blocks.toFinset).covered_blocks ↔ c ∈ db.covered_blocks ∨
      c.CreatorTestcaseID = row.ID ∧ ∃ b ∈ blocks, c.stored = storedBlock b := by
  rw [LMDatabase.insertBlocks, Finset.mem_union, Finset.mem_image]
  refine or_congr_right ⟨?_, ?_⟩
  · rintro ⟨b, hb, rfl⟩
    exact ⟨rfl, b, List.mem_toFinset.mp hb, rfl⟩
  · rintro ⟨hid, b, hb, hstored⟩
    obtain ⟨creator, moduleID, offset⟩ := c
    obtain rfl : creator = row.ID := hid
    obtain ⟨rfl, rfl⟩ := Prod.mk.inj hstored
    exact ⟨b, List.mem_toFinset.mpr hb, rfl⟩

theorem change_addBlocks (accepts : Statement → Bool) (db : LMDatabase) (tcID : FluffiTestcaseID)
    (blocks : List FluffiBasicBlock) : Change (·.Creator = tcID.key) blocks db
      (addBlocksToCoveredBlocks accepts db tcID blocks.toFinset).2 := by
  unfold addBlocksToCoveredBlocks
  split
  · split
    · rename_i row hrows
      have hrow := mem_of_rowsOf_eq hrows
      split
      · exact .refl _ _ db
      split
      · refine ⟨fun entry hentry hfree => ⟨⟨hentry.row, hentry.no_crash⟩, fun c hc => ?_⟩,
          le_refl _, held_of_subset fun _ hrow => hrow, fun c hc =>
          ((mem_insertBlocks hrow).mp hc).imp_right And.right⟩
        rw [mem_insertBlocks hrow, or_iff_left]
        rintro ⟨hid, -⟩
        refine hentry.ne_ID hrow ?_ (hid.symm.trans hc)
        rw [creator_of_rowsOf hrows]
        exact hfree
      · exact .refl _ _ db
    · exact .refl _ _ db
  · exact .refl _ _ db

theorem change_mark (accepts : Statement → Bool) (c : CompletedCache) (db : LMDatabase)
    (testcaseID : FluffiTestcaseID) (now nowAfterFlush : ℤ) :
    Untouched db (c.markTestcaseAsCompleted accepts db testcaseID now nowAfterFlush).2.2 := by
  rcases mark_cases accepts c db testcaseID now nowAfterFlush with
    ⟨-, heq⟩ | ⟨-, -, -, heq⟩ | ⟨-, -, heq⟩
  · rw [heq]
    exact .refl _ _ db
  · rw [heq]
    exact ⟨fun _ hentry _ => ⟨⟨hentry.row, hentry.no_crash⟩, fun _ _ => Iff.rfl⟩, le_refl _,
      held_of_subset fun _ hrow => hrow, fun _ hc => .inl hc⟩
  · rw [heq]
    exact .refl _ _ db

/-! ### The handlers -/

variable {m_testcaseDir : String} {env : RequestEnv} {s s' : LMState}
  {req : PutTestEvaluationRequest} {success : Bool}

theorem addEntry_cases {disk : Disk} {heap : ℕ → UInt8} {marked marked' : Finset String}
    {tcID tcparentID : FluffiTestcaseID} {rating : ℤ} {tcType : TestCaseType}
    (h : addEntryToInterestingTestcasesTable accepts disk heap db marked tcID tcparentID rating
      m_testcaseDir tcType = .ok (success, db', marked')) :
    (success = false ∧ db' = db) ∨
      (success = true ∧ (db' = db.deleteInteresting tcID.key ∨ ∃ parent rawBytes,
        (db.deleteInteresting tcID.key).insertInteresting tcID.key parent rating rawBytes tcType =
          some db')) := by
  unfold addEntryToInterestingTestcasesTable at h
  cases hload : loadTestcaseInMemory disk heap tcID m_testcaseDir with
  | error abnormal =>
    rw [hload] at h
    cases h
  | ok rawBytes =>
    rw [hload] at h
    replace h := Except.ok.inj h
    split at h
    · obtain ⟨rfl, hdb⟩ := Prod.mk.inj h
      obtain ⟨hdb, -⟩ := Prod.mk.inj hdb
      refine .inr ⟨rfl, ?_⟩
      split at hdb
      · obtain ⟨inserted, hinserted, -⟩ := insertInteresting_eq
          (rowsOf_deleteInteresting db tcID.key) (parentToSet accepts db tcID tcparentID).key rating
          rawBytes tcType
        rw [hinserted] at hdb
        exact .inr ⟨_, rawBytes, hinserted.trans (congrArg some hdb)⟩
      · exact .inl hdb.symm
    · obtain ⟨rfl, hdb⟩ := Prod.mk.inj h
      obtain ⟨rfl, -⟩ := Prod.mk.inj hdb
      exact .inl ⟨rfl, rfl⟩

theorem change_addEntry {disk : Disk} {heap : ℕ → UInt8} {marked marked' : Finset String}
    {tcID tcparentID : FluffiTestcaseID} {rating : ℤ} {tcType : TestCaseType}
    (h : addEntryToInterestingTestcasesTable accepts disk heap db marked tcID tcparentID rating
      m_testcaseDir tcType = .ok (success, db', marked')) :
    Change (·.Creator = tcID.key) [] db db' := by
  rcases addEntry_cases h with ⟨-, rfl⟩ | ⟨-, rfl | ⟨parent, rawBytes, hinsert⟩⟩
  · exact .refl _ _ db'
  · exact change_deleteInteresting db tcID.key
  · exact (change_deleteInteresting db tcID.key).trans (change_insertInteresting hinsert).change

theorem change_recordDetails (accepts : Statement → Bool) (db : LMDatabase)
    (req : PutTestEvaluationRequest) (tcType : TestCaseType) :
    Change (·.Creator = req.id.key) req.result.m_blocks db
      (recordDetails accepts db req tcType).2 := by
  unfold recordDetails
  split
  · exact (change_addCrash accepts db req.id req.result.m_crashFootprint).mono (fun _ h => h)
      (List.nil_subset _)
  split
  · have hblocks := change_addBlocks accepts db req.id req.result.m_blocks
    cases hadd : addBlocksToCoveredBlocks accepts db req.id req.result.m_blocks.toFinset with
    | mk added db₁ =>
      rw [hadd] at hblocks
      cases added with
      | false => exact hblocks
      | true =>
        exact hblocks.trans ((change_setType accepts db₁ req.id (.inl rfl)).mono (fun _ h => h)
          (List.nil_subset _))
  · exact .refl _ _ db

/-- The branch `Keep` stops before the database, or it replaces the row and records the details. -/
theorem keepTestcase_cases (h : keepTestcase m_testcaseDir env s req = .ok (success, s')) :
    (success = false ∧ s'.db = s.db) ∨
      ∃ db₁, (db₁ = s.db.deleteInteresting req.id.key ∨ ∃ parent rating rawBytes,
          (s.db.deleteInteresting req.id.key).insertInteresting req.id.key parent rating rawBytes
            (if tcTypeOf req.result.m_exitType = .Population then .Locked
              else tcTypeOf req.result.m_exitType) = some db₁) ∧
        recordDetails env.accepts db₁ req (tcTypeOf req.result.m_exitType) = (success, s'.db) := by
  unfold keepTestcase at h
  cases hstore : storeTestcaseFileOnDisk s.host env.store env.ask req.id m_testcaseDir
      req.testcasefirstchunk req.islastchunk with
  | error abnormal =>
    rw [hstore] at h
    cases h
  | ok stored =>
    rw [hstore] at h
    simp only [Except.bind] at h
    split at h
    · cases hadd : addEntryToInterestingTestcasesTable env.accepts stored.host.disk env.heap s.db
          stored.host.m_setOfFilesToDelete req.id req.parentid
          (if tcTypeOf req.result.m_exitType = .Population then defaultInitialPopulationRating
            else 0) m_testcaseDir
          (if tcTypeOf req.result.m_exitType = .Population then .Locked
            else tcTypeOf req.result.m_exitType) with
      | error abnormal =>
        rw [hadd] at h
        cases h
      | ok result =>
        obtain ⟨added, db₁, marked⟩ := result
        rw [hadd] at h
        replace h := Except.ok.inj h
        rcases addEntry_cases hadd with ⟨rfl, rfl⟩ | ⟨rfl, hdb₁⟩
        · obtain ⟨rfl, rfl⟩ := Prod.mk.inj h
          exact .inl ⟨rfl, rfl⟩
        · obtain ⟨hsuccess, rfl⟩ := Prod.mk.inj h
          refine .inr ⟨db₁, hdb₁.imp_right fun ⟨parent, rawBytes, hinsert⟩ =>
            ⟨parent, _, rawBytes, hinsert⟩, ?_⟩
          exact Prod.ext hsuccess rfl
    · obtain ⟨rfl, rfl⟩ := Prod.mk.inj (Except.ok.inj h)
      exact .inl ⟨rfl, rfl⟩

theorem change_keepTestcase (h : keepTestcase m_testcaseDir env s req = .ok (success, s')) :
    Change (·.Creator = req.id.key) req.result.m_blocks s.db s'.db := by
  rcases keepTestcase_cases h with ⟨-, heq⟩ | ⟨db₁, hdb₁, hrecord⟩
  · rw [heq]
    exact .refl _ _ s.db
  · have hadded : Change (·.Creator = req.id.key) req.result.m_blocks s.db db₁ := by
      have hdeleted := (change_deleteInteresting s.db req.id.key).mono (fun _ h => h)
        (List.nil_subset req.result.m_blocks)
      rcases hdb₁ with rfl | ⟨parent, rating, rawBytes, hinsert⟩
      · exact hdeleted
      · exact hdeleted.trans (change_insertInteresting hinsert).change
    have hrecorded := change_recordDetails env.accepts db₁ req (tcTypeOf req.result.m_exitType)
    rw [hrecord] at hrecorded
    exact hadded.trans hrecorded

/-- Where the handler goes once it has marked the testcase and changed the rating. -/
theorem evaluation_cases (h : handlePutTestEvaluationRequest m_testcaseDir env s req =
    .ok (success, s')) :
    ∃ s₁, Untouched s.db s₁.db ∧ (s'.db = s₁.db ∧ (success = false ∨ req.eval ≠ .Keep) ∨
      req.eval = .Keep ∧ keepTestcase m_testcaseDir env s₁ req = .ok (success, s')) := by
  unfold handlePutTestEvaluationRequest at h
  have hmarked :=
    change_mark env.accepts s.cache s.db req.id env.now env.nowAfterFlush
  cases hmark : s.cache.markTestcaseAsCompleted env.accepts s.db req.id env.now
      env.nowAfterFlush with
  | mk marked rest =>
    obtain ⟨cache, db₁⟩ := rest
    rw [hmark] at h hmarked
    cases marked with
    | false =>
      obtain ⟨rfl, rfl⟩ := Prod.mk.inj (Except.ok.inj h)
      exact ⟨{ s with cache := cache, db := db₁ }, hmarked, .inl ⟨rfl, .inl rfl⟩⟩
    | true =>
      have hrated := change_addDelta env.accepts db₁ req.parentid req.parentratingdelta
      cases hadd : addDeltaToTestcaseRating env.accepts db₁ req.parentid
          req.parentratingdelta with
      | mk added db₂ =>
        rw [hadd] at hrated
        simp only [hadd, if_true] at h
        refine ⟨{ s with cache := cache, db := db₂ }, hmarked.trans hrated, ?_⟩
        cases added with
        | false =>
          obtain ⟨rfl, rfl⟩ := Prod.mk.inj (Except.ok.inj h)
          exact .inl ⟨rfl, .inl rfl⟩
        | true =>
          simp only [if_true] at h
          cases heval : req.eval with
          | Keep =>
            rw [heval] at h
            exact .inr ⟨rfl, h⟩
          | Discard =>
            rw [heval] at h
            obtain ⟨rfl, rfl⟩ := Prod.mk.inj (Except.ok.inj h)
            exact .inl ⟨rfl, .inr TestEvaluation.noConfusion⟩
          | unknown =>
            rw [heval] at h
            obtain ⟨rfl, rfl⟩ := Prod.mk.inj (Except.ok.inj h)
            exact .inl ⟨rfl, .inr TestEvaluation.noConfusion⟩

/-- An evaluation touches the testcase it is about, if that is to be kept. -/
theorem change_evaluation (h : handlePutTestEvaluationRequest m_testcaseDir env s req =
    .ok (success, s')) :
    Change (fun entry => req.eval = .Keep ∧ entry.Creator = req.id.key)
      (if req.eval = .Keep then req.result.m_blocks else []) s.db s'.db := by
  obtain ⟨s₁, hsame, ⟨heq, -⟩ | ⟨hkeep, hkept⟩⟩ := evaluation_cases h
  · rw [heq]
    exact hsame.change
  · rw [if_pos hkeep]
    exact hsame.change.trans
      ((change_keepTestcase hkept).mono (fun _ h => ⟨hkeep, h⟩) (List.Subset.refl _))

end Fluffi.LocalManager
