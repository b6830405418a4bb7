import Fluffi.LocalManager.Database

/-! Adding a testcase to `interesting_testcases`: load its file, mark the file for
deletion, delete the old row with everything that refers to it, insert the new row.
Proved: the call is all or nothing exactly when both statements are accepted, the
file can be read and is smaller than four gibibytes, and the parent can be
resolved. -/

namespace Fluffi.LocalManager

open Shared

/-- The parent that the database knows, if the lookup succeeds. -/
def getParentTCID (accepts : Statement → Bool) (db : LMDatabase) (tcID : FluffiTestcaseID) :
    Option FluffiTestcaseID :=
  if accepts .selectParent then
    match db.rowsOf tcID.key with
    | [row] => some ⟨⟨"not set", row.Parent.guid⟩, row.Parent.localID⟩
    | _ => none
  else none

/-- `tcparentIDToSet`: a special parent is replaced, if the lookup succeeds. -/
def parentToSet (accepts : Statement → Bool) (db : LMDatabase)
    (tcID tcparentID : FluffiTestcaseID) : FluffiTestcaseID :=
  if tcparentID.isSpecial then (getParentTCID accepts db tcID).getD tcparentID else tcparentID

/-- The result, the database and the mark set afterwards. -/
def addEntryToInterestingTestcasesTable (accepts : Statement → Bool) (disk : Disk)
    (heap : ℕ → UInt8) (db : LMDatabase) (m_setOfFilesToDelete : Finset String)
    (tcID tcparentID : FluffiTestcaseID) (rating : ℤ) (testcaseDir : String)
    (tcType : TestCaseType) : Except Abnormal (Bool × LMDatabase × Finset String) :=
  let tcparentIDToSet := parentToSet accepts db tcID tcparentID
  (loadTestcaseInMemory disk heap tcID testcaseDir).map fun rawBytes =>
    let marked := insert (generateTestcasePathAndFilename tcID testcaseDir) m_setOfFilesToDelete
    if accepts .deleteInteresting then
      let db := db.deleteInteresting tcID.key
      -- the result of the second statement stays in its block
      let inserted := if accepts .insertInteresting then
        db.insertInteresting tcID.key tcparentIDToSet.key rating rawBytes tcType else none
      (true, inserted.getD db, marked)
    else (false, db, marked)

/-- The parent a new row should have. -/
def resolvedParent (db : LMDatabase) (tcID tcparentID : FluffiTestcaseID) : Option TestcaseKey :=
  if tcparentID.isSpecial then (db.rowsOf tcID.key).head?.map (·.Parent) else some tcparentID.key

/-- True means one row with the bytes of the file, the rating, the type and the
resolved parent; false means that nothing changed and the file is not marked. -/
def AllOrNothing (disk : Disk) (db : LMDatabase) (tcID tcparentID : FluffiTestcaseID) (rating : ℤ)
    (testcaseDir : String) (tcType : TestCaseType) :
    Except Abnormal (Bool × LMDatabase × Finset String) → Prop
  | .ok (true, db', _) => ∃ row, db'.rowsOf tcID.key = [row] ∧
      (disk (generateTestcasePathAndFilename tcID testcaseDir)).map (·.content) =
        some row.RawBytes ∧
      row.Rating = rating ∧ row.TestCaseType = tcType ∧
      resolvedParent db tcID tcparentID = some row.Parent
  | .ok (false, db', marked') => db'.interesting_testcases = db.interesting_testcases ∧
      db'.crash_descriptions = db.crash_descriptions ∧ db'.covered_blocks = db.covered_blocks ∧
      generateTestcasePathAndFilename tcID testcaseDir ∉ marked'
  | .error _ => False

/-- Everything the new row needs can be had. -/
structure Storable (accepts : Statement → Bool) (disk : Disk) (db : LMDatabase)
    (tcID tcparentID : FluffiTestcaseID) (testcaseDir : String) : Prop where
  delete : accepts .deleteInteresting = true
  insert : accepts .insertInteresting = true
  readable : ∃ ifs, disk (generateTestcasePathAndFilename tcID testcaseDir) = some ifs ∧
    ifs.content.length < 2 ^ 32 ∧ ifs.content.length ≤ ifs.readLimit
  parent : tcparentID.isSpecial = true → ∃ row ∈ db.rowsOf tcID.key,
    accepts .selectParent = true ∨ row.Parent = tcparentID.key

variable {accepts : Statement → Bool} {disk : Disk} {heap : ℕ → UInt8} {db db' : LMDatabase}
  {marked : Finset String} {tcID tcparentID : FluffiTestcaseID} {rating : ℤ}
  {testcaseDir : String} {tcType : TestCaseType}

theorem rowsOf_deleteInteresting (db : LMDatabase) (creator : TestcaseKey) :
    (db.deleteInteresting creator).rowsOf creator = [] := by
  simp [LMDatabase.rowsOf, LMDatabase.deleteInteresting, List.filter_filter]

/-- The unique key forbids no second row, so the insert takes place. -/
theorem insertInteresting_eq {creator : TestcaseKey} (hnew : db.rowsOf creator = [])
    (parent : TestcaseKey) (rating : ℤ) (rawBytes : Bytes) (tcType : TestCaseType) :
    ∃ db', db.insertInteresting creator parent rating rawBytes tcType = some db' ∧
      db'.rowsOf creator = [⟨db.nextID, creator, parent, rating, rawBytes, tcType⟩] ∧
      db'.completed_testcases = db.completed_testcases := by
  rw [LMDatabase.insertInteresting, dif_pos hnew]
  refine ⟨_, rfl, ?_, rfl⟩
  unfold LMDatabase.rowsOf at hnew ⊢
  simp [List.filter_append, hnew]

/-- Once the bytes are loaded the file is marked, and the result is that of the
first statement. -/
theorem addEntry_eq (accepts : Statement → Bool) (db : LMDatabase) (marked : Finset String)
    (tcparentID : FluffiTestcaseID) (rating : ℤ) (tcType : TestCaseType) {rawBytes : Bytes}
    (hload : loadTestcaseInMemory disk heap tcID testcaseDir = .ok rawBytes) :
    ∃ db', addEntryToInterestingTestcasesTable accepts disk heap db marked tcID tcparentID rating
        testcaseDir tcType = .ok (accepts .deleteInteresting, db',
          insert (generateTestcasePathAndFilename tcID testcaseDir) marked) ∧
      db'.completed_testcases = db.completed_testcases ∧
      (accepts .deleteInteresting = true → db'.rowsOf tcID.key =
        if accepts .insertInteresting then
          [⟨db.nextID, tcID.key, (parentToSet accepts db tcID tcparentID).key, rating, rawBytes,
            tcType⟩]
        else []) := by
  rw [addEntryToInterestingTestcasesTable, hload]
  cases hdelete : accepts .deleteInteresting
  · exact ⟨db, by simp [Except.map], rfl, by simp⟩
  · cases hinsert : accepts .insertInteresting
    · exact ⟨db.deleteInteresting tcID.key, by simp [Except.map], rfl,
        fun _ => rowsOf_deleteInteresting db tcID.key⟩
    · obtain ⟨db', hdb', hrows, hcompleted⟩ := insertInteresting_eq
        (rowsOf_deleteInteresting db tcID.key) (parentToSet accepts db tcID tcparentID).key rating
        rawBytes tcType
      exact ⟨db', by simp [Except.map, hdb'], hcompleted, fun _ => hrows⟩

/-- The parent that the new row gets is the resolved one. -/
theorem parent_resolved_iff :
    resolvedParent db tcID tcparentID = some (parentToSet accepts db tcID tcparentID).key ↔
      (tcparentID.isSpecial = true → ∃ row ∈ db.rowsOf tcID.key,
        accepts .selectParent = true ∨ row.Parent = tcparentID.key) := by
  by_cases hspecial : tcparentID.isSpecial = true
  · rw [resolvedParent, parentToSet, if_pos hspecial, if_pos hspecial, getParentTCID]
    rcases db.rowsOf_cases tcID.key with hrows | ⟨row, hrows⟩
    · simp [hrows, hspecial]
    · by_cases hselect : accepts .selectParent = true
      · rw [if_pos hselect, hrows]
        exact iff_of_true rfl fun _ => ⟨row, List.mem_singleton_self row, .inl hselect⟩
      · simp [hrows, hselect, hspecial]
  · simp [resolvedParent, parentToSet, hspecial]

/-- The call is all or nothing exactly when the loaded bytes are those of the file,
both statements are accepted and the parent is resolved. -/
theorem allOrNothing_iff_loaded :
    AllOrNothing disk db tcID tcparentID rating testcaseDir tcType
        (addEntryToInterestingTestcasesTable accepts disk heap db marked tcID tcparentID rating
          testcaseDir tcType) ↔
      (∃ rawBytes, loadTestcaseInMemory disk heap tcID testcaseDir = .ok rawBytes ∧
        (disk (generateTestcasePathAndFilename tcID testcaseDir)).map (·.content) =
          some rawBytes) ∧
      accepts .deleteInteresting = true ∧ accepts .insertInteresting = true ∧
      (tcparentID.isSpecial = true → ∃ row ∈ db.rowsOf tcID.key,
        accepts .selectParent = true ∨ row.Parent = tcparentID.key) := by
  rw [← parent_resolved_iff]
  cases hload : loadTestcaseInMemory disk heap tcID testcaseDir with
  | error abnormal => simp [addEntryToInterestingTestcasesTable, hload, Except.map, AllOrNothing]
  | ok rawBytes =>
    obtain ⟨db', heq, _, hrows⟩ := addEntry_eq accepts db marked tcparentID rating tcType hload
    rw [heq]
    cases hdelete : accepts .deleteInteresting
    · simp [AllOrNothing]
    · have hrows := hrows hdelete
      cases hinsert : accepts .insertInteresting
      · rw [hinsert] at hrows
        simp [AllOrNothing, hrows]
      · rw [hinsert, if_pos rfl] at hrows
        constructor
        · rintro ⟨row, hrow, hbytes, _, _, hparent⟩
          obtain rfl := List.singleton_inj.mp (hrows.symm.trans hrow)
          exact ⟨⟨rawBytes, rfl, hbytes⟩, rfl, rfl, hparent⟩
        · rintro ⟨⟨bytes, hbytes, hcontent⟩, _, _, hparent⟩
          obtain rfl := Except.ok.inj hbytes
          exact ⟨_, hrows, hcontent, rfl, rfl, hparent⟩

/-- Whatever the heap holds, the bytes of the file are loaded exactly when it opens,
is smaller than four gibibytes and is read to its end. -/
theorem loaded_iff :
    (∀ heap, ∃ rawBytes, loadTestcaseInMemory disk heap tcID testcaseDir = .ok rawBytes ∧
      (disk (generateTestcasePathAndFilename tcID testcaseDir)).map (·.content) = some rawBytes) ↔
    ∃ ifs, disk (generateTestcasePathAndFilename tcID testcaseDir) = some ifs ∧
      ifs.content.length < 2 ^ 32 ∧ ifs.content.length ≤ ifs.readLimit := by
  unfold loadTestcaseInMemory
  cases hd : disk (generateTestcasePathAndFilename tcID testcaseDir) with
  | none => simp
  | some ifs =>
    simp only [Option.map_some, Option.some.injEq, exists_eq_right', exists_eq_left']
    constructor
    · intro hall
      have hload := hall fun i => ifs.content.getD i 0 + 1
      by_cases hlen : ifs.content.length < 2 ^ 32
      · rw [readBuffer_eq _ hlen, List.take_take, Except.ok.injEq] at hload
        have hle := le_of_buffer_eq hload
        exact ⟨hlen, by omega⟩
      · have hshort := readBuffer_length hload
        have hmod := Nat.mod_lt ifs.content.length (Nat.two_pow_pos 32)
        omega
    · rintro ⟨hlen, hlimit⟩ heap
      rw [readBuffer_eq heap hlen, List.take_of_length_le hlimit, List.take_length,
        buffer_full heap le_rfl]

theorem all_or_nothing_iff (accepts : Statement → Bool) (disk : Disk) (db : LMDatabase)
    (marked : Finset String) (tcID tcparentID : FluffiTestcaseID) (rating : ℤ)
    (testcaseDir : String) (tcType : TestCaseType) :
    (∀ heap, AllOrNothing disk db tcID tcparentID rating testcaseDir tcType
      (addEntryToInterestingTestcasesTable accepts disk heap db marked tcID tcparentID rating
        testcaseDir tcType)) ↔
      Storable accepts disk db tcID tcparentID testcaseDir := by
  simp only [allOrNothing_iff_loaded]
  rw [forall_and]
  constructor
  · rintro ⟨hload, hrest⟩
    obtain ⟨hdelete, hinsert, hparent⟩ := hrest fun _ => 0
    exact ⟨hdelete, hinsert, loaded_iff.mp hload, hparent⟩
  · rintro ⟨hdelete, hinsert, hread, hparent⟩
    exact ⟨loaded_iff.mpr hread, fun _ => ⟨hdelete, hinsert, hparent⟩⟩

/-- A call whose second statement fails. -/
def refusedInsert : Except Abnormal (Bool × LMDatabase × Finset String) :=
  addEntryToInterestingTestcasesTable (· ≠ .insertInteresting)
    (fun _ => some (.healthy [1, 2, 3])) (fun _ => 0) .empty ∅ ⟨⟨"host:1", "guid"⟩, 1⟩
    ⟨⟨"host:2", "parent"⟩, 0⟩ 10000 "dir" .Population

/-- Its result is true, and the table has no row for the testcase. -/
theorem insert_failure_unnoticed :
    (∃ db' marked', refusedInsert = .ok (true, db', marked') ∧ db'.rowsOf ⟨"guid", 1⟩ = []) ∧
    ¬ AllOrNothing (fun _ => some (.healthy [1, 2, 3])) .empty ⟨⟨"host:1", "guid"⟩, 1⟩
      ⟨⟨"host:2", "parent"⟩, 0⟩ 10000 "dir" .Population refusedInsert := by
  refine ⟨⟨_, _, rfl, rfl⟩, ?_⟩
  rintro ⟨row, hrow, _⟩
  cases hrow

end Fluffi.LocalManager
