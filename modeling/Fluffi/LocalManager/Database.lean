import Mathlib.Data.Finset.Image
import Mathlib.Data.Multiset.AddSub
import Fluffi.Shared.Files
import Fluffi.Shared.Evaluation

/-! The database of the local manager. Keys and references that the tables declare
are fields of the database, so no statement can break them. A statement that the
database accepts has its effect; which statements it accepts is an oracle, and one
that a declared key or reference forbids is never accepted. -/

namespace Fluffi.LocalManager

open Shared

inductive TestCaseType
  | Population | Hang | Exception_AccessViolation | Exception_Other | NoResponse
  | Inactive_Population | Locked
  deriving DecidableEq, Repr

/-- A row of `interesting_testcases`. -/
structure InterestingTestcase where
  ID : ℕ
  Creator : TestcaseKey
  Parent : TestcaseKey
  Rating : ℤ
  RawBytes : Bytes
  TestCaseType : TestCaseType
  deriving DecidableEq, Repr

structure CrashDescription where
  CreatorTestcaseID : ℕ
  CrashFootprint : String
  deriving DecidableEq, Repr

structure CoveredBlock where
  CreatorTestcaseID : ℕ
  ModuleID : UInt8
  Offset : UInt64
  deriving DecidableEq

structure LMDatabase where
  interesting_testcases : List InterestingTestcase
  crash_descriptions : List CrashDescription
  covered_blocks : Finset CoveredBlock
  completed_testcases : Multiset TestcaseKey
  nextID : ℕ
  creator_unique : (interesting_testcases.map (·.Creator)).Nodup
  id_unique : (interesting_testcases.map (·.ID)).Nodup
  id_lt : ∀ row ∈ interesting_testcases, row.ID < nextID
  crash_reference : ∀ c ∈ crash_descriptions,
    ∃ row ∈ interesting_testcases, row.ID = c.CreatorTestcaseID
  block_reference : ∀ b ∈ covered_blocks,
    ∃ row ∈ interesting_testcases, row.ID = b.CreatorTestcaseID

/-- The statements one request can execute. -/
inductive Statement
  | selectParent | deleteInteresting | insertInteresting | updateRating | updateType
  | replaceCrash | selectID | insertBlocks | insertCompleted
  deriving DecidableEq, Repr

namespace LMDatabase

def empty : LMDatabase where
  interesting_testcases := []
  crash_descriptions := []
  covered_blocks := ∅
  completed_testcases := 0
  nextID := 1
  creator_unique := List.nodup_nil
  id_unique := List.nodup_nil
  id_lt := by simp
  crash_reference := by simp
  block_reference := by simp

/-- `WHERE CreatorServiceDescriptorGUID = ? AND CreatorLocalID = ?` -/
def rowsOf (db : LMDatabase) (creator : TestcaseKey) : List InterestingTestcase :=
  db.interesting_testcases.filter (·.Creator = creator)

/-- There is one row of a testcase or none. -/
theorem rowsOf_cases (db : LMDatabase) (creator : TestcaseKey) :
    db.rowsOf creator = [] ∨ ∃ row, db.rowsOf creator = [row] := by
  have hnodup : ((db.rowsOf creator).map (·.Creator)).Nodup :=
    db.creator_unique.sublist (List.Sublist.map _ List.filter_sublist)
  have hcreator : ∀ row ∈ db.rowsOf creator, row.Creator = creator := fun row hrow => by
    simpa using List.of_mem_filter hrow
  cases hrows : db.rowsOf creator with
  | nil => exact .inl rfl
  | cons a rows =>
    cases rows with
    | nil => exact .inr ⟨a, rfl⟩
    | cons b rows =>
      rw [hrows] at hnodup hcreator
      have ha := hcreator a (by simp)
      have hb := hcreator b (by simp)
      simp [ha, hb] at hnodup

/-- Do rows of the testcase refer to `id`? -/
def refersTo (db : LMDatabase) (creator : TestcaseKey) (id : ℕ) : Bool :=
  (db.rowsOf creator).any (·.ID = id)

theorem exists_other_row {db : LMDatabase} {creator : TestcaseKey} {id : ℕ}
    (hex : ∃ row ∈ db.interesting_testcases, row.ID = id) (hno : db.refersTo creator id = false) :
    ∃ row ∈ db.interesting_testcases.filter (·.Creator ≠ creator), row.ID = id := by
  obtain ⟨row, hrow, hid⟩ := hex
  refine ⟨row, List.mem_filter.mpr ⟨hrow, ?_⟩, hid⟩
  rw [decide_eq_true_eq]
  intro hc
  have hmem : row ∈ db.rowsOf creator := List.mem_filter.mpr ⟨hrow, by simpa using hc⟩
  have hnot := List.any_eq_false.mp hno row hmem
  simp [hid] at hnot

/-- `DELETE FROM interesting_testcases`, with the cascade to the tables that refer
to it. -/
def deleteInteresting (db : LMDatabase) (creator : TestcaseKey) : LMDatabase where
  interesting_testcases := db.interesting_testcases.filter (·.Creator ≠ creator)
  crash_descriptions := db.crash_descriptions.filter (!db.refersTo creator ·.CreatorTestcaseID)
  covered_blocks := db.covered_blocks.filter (!db.refersTo creator ·.CreatorTestcaseID)
  completed_testcases := db.completed_testcases
  nextID := db.nextID
  creator_unique := db.creator_unique.sublist (List.Sublist.map _ List.filter_sublist)
  id_unique := db.id_unique.sublist (List.Sublist.map _ List.filter_sublist)
  id_lt row hrow := db.id_lt row (List.mem_of_mem_filter hrow)
  crash_reference c hc := by
    obtain ⟨hc, hno⟩ := List.mem_filter.mp hc
    exact exists_other_row (db.crash_reference c hc) (by simpa using hno)
  block_reference b hb := by
    obtain ⟨hb, hno⟩ := Finset.mem_filter.mp hb
    exact exists_other_row (db.block_reference b hb) (by simpa using hno)

/-- `INSERT INTO interesting_testcases`: the unique key on the creator forbids a
second row. -/
def insertInteresting (db : LMDatabase) (creator parent : TestcaseKey) (rating : ℤ)
    (rawBytes : Bytes) (type : TestCaseType) : Option LMDatabase :=
  if hnew : db.rowsOf creator = [] then some {
    interesting_testcases :=
      db.interesting_testcases ++ [⟨db.nextID, creator, parent, rating, rawBytes, type⟩]
    crash_descriptions := db.crash_descriptions
    covered_blocks := db.covered_blocks
    completed_testcases := db.completed_testcases
    nextID := db.nextID + 1
    creator_unique := by
      rw [List.map_append, List.nodup_append]
      refine ⟨db.creator_unique, List.nodup_singleton _, ?_⟩
      intro a ha b hb hab
      obtain ⟨row, hrow, rfl⟩ := List.mem_map.mp ha
      have hb : b = creator := by simpa using hb
      have hnot := List.filter_eq_nil_iff.mp hnew row hrow
      exact hnot (by simpa using hab.trans hb)
    id_unique := by
      rw [List.map_append, List.nodup_append]
      refine ⟨db.id_unique, List.nodup_singleton _, ?_⟩
      intro a ha b hb hab
      obtain ⟨row, hrow, rfl⟩ := List.mem_map.mp ha
      have hb : b = db.nextID := by simpa using hb
      have hlt := db.id_lt row hrow
      omega
    id_lt := by
      intro row hrow
      rcases List.mem_append.mp hrow with hrow | hrow
      · exact (db.id_lt row hrow).trans (Nat.lt_succ_self _)
      · rw [List.mem_singleton.mp hrow]
        exact Nat.lt_succ_self _
    crash_reference := fun c hc => by
      obtain ⟨row, hrow, hid⟩ := db.crash_reference c hc
      exact ⟨row, List.mem_append_left _ hrow, hid⟩
    block_reference := fun b hb => by
      obtain ⟨row, hrow, hid⟩ := db.block_reference b hb
      exact ⟨row, List.mem_append_left _ hrow, hid⟩ }
  else none

/-- `UPDATE interesting_testcases SET ... WHERE` the creator is this one; no such
statement sets the ID or the creator. -/
def updateInteresting (db : LMDatabase) (creator : TestcaseKey)
    (set : InterestingTestcase → InterestingTestcase) (hid : ∀ row, (set row).ID = row.ID)
    (hcreator : ∀ row, (set row).Creator = row.Creator) : LMDatabase :=
  have hids : ∀ row : InterestingTestcase,
      (if row.Creator = creator then set row else row).ID = row.ID := fun row => by
    split
    · exact hid row
    · rfl
  have hreference : ∀ id, (∃ row ∈ db.interesting_testcases, row.ID = id) →
      ∃ row ∈ db.interesting_testcases.map fun row =>
        if row.Creator = creator then set row else row, row.ID = id := fun id ⟨row, hrow, h⟩ =>
    ⟨_, List.mem_map_of_mem hrow, (hids row).trans h⟩
  { interesting_testcases := db.interesting_testcases.map fun row =>
      if row.Creator = creator then set row else row
    crash_descriptions := db.crash_descriptions
    covered_blocks := db.covered_blocks
    completed_testcases := db.completed_testcases
    nextID := db.nextID
    creator_unique := by
      rw [List.map_map]
      convert db.creator_unique using 2
      funext row
      rw [Function.comp_apply]
      split
      · exact hcreator row
      · rfl
    id_unique := by
      rw [List.map_map]
      convert db.id_unique using 2
      funext row
      exact hids row
    id_lt := fun updated hupdated => by
      obtain ⟨row, hrow, rfl⟩ := List.mem_map.mp hupdated
      rw [hids]
      exact db.id_lt row hrow
    crash_reference := fun c hc => hreference _ (db.crash_reference c hc)
    block_reference := fun b hb => hreference _ (db.block_reference b hb) }

/-- `REPLACE INTO crash_descriptions` for the row with this ID. -/
def replaceCrash (db : LMDatabase) (row : InterestingTestcase)
    (hrow : row ∈ db.interesting_testcases) (crashFootprint : String) : LMDatabase :=
  { db with
    crash_descriptions := db.crash_descriptions.filter (·.CreatorTestcaseID ≠ row.ID) ++
      [⟨row.ID, crashFootprint⟩]
    crash_reference := by
      intro c hc
      rcases List.mem_append.mp hc with hc | hc
      · exact db.crash_reference c (List.mem_of_mem_filter hc)
      · rw [List.mem_singleton.mp hc]
        exact ⟨row, hrow, rfl⟩ }

/-- `INSERT INTO covered_blocks ... ON DUPLICATE KEY UPDATE`, with the module IDs
cast to `unsigned char`. -/
def insertBlocks (db : LMDatabase) (row : InterestingTestcase)
    (hrow : row ∈ db.interesting_testcases) (basicBlocks : Finset FluffiBasicBlock) : LMDatabase :=
  { db with
    covered_blocks := db.covered_blocks ∪ basicBlocks.image fun b =>
      ⟨row.ID, UInt8.ofBitVec (b.m_moduleID.toBitVec.setWidth 8), b.m_rva⟩
    block_reference := by
      intro b hb
      rcases Finset.mem_union.mp hb with hb | hb
      · exact db.block_reference b hb
      · obtain ⟨_, _, rfl⟩ := Finset.mem_image.mp hb
        exact ⟨row, hrow, rfl⟩ }

/-- The bulk insert into `completed_testcases`. -/
def insertCompleted (db : LMDatabase) (rows : Multiset TestcaseKey) : LMDatabase :=
  { db with completed_testcases := db.completed_testcases + rows }

end LMDatabase

end Fluffi.LocalManager
