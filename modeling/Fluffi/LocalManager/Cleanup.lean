import Mathlib.Data.List.Sort
import Fluffi.Systems.Retention
import Fluffi.LocalManager.CrashFootprints

/-! The cleanup worker of the local manager. Each round it drops testcases with a frequent crash
footprint, and of the hangs and of the testcases without a response all but the first ten
thousand. -/

namespace Fluffi.LocalManager

open Shared Systems

namespace LMDatabase

/-- The IDs of the testcases of a type. -/
def held (db : LMDatabase) (type : TestCaseType) : Finset ℕ :=
  ((db.interesting_testcases.filter (·.TestCaseType = type)).map (·.ID)).toFinset

/-- `SELECT ID FROM interesting_testcases WHERE TestcaseType = ? ORDER BY ID ASC` -/
def orderedIDs (db : LMDatabase) (type : TestCaseType) : List ℕ :=
  ((db.interesting_testcases.filter (·.TestCaseType = type)).map (·.ID)).mergeSort

end LMDatabase

/-- With `LIMIT 1 OFFSET` in the sub-query. An offset below zero is an error. -/
def CrashDatabase.dropTestcaseTypeIFMoreThan (type : TestCaseType) (instances : ℕ)
    (db : CrashDatabase) : CrashDatabase :=
  if instances = 0 then db
  else
    match (db.orderedIDs type)[instances - 1]? with
    | none => db
    | some tclimit => db.deleteWhere fun tc => tclimit < tc.ID && tc.TestCaseType = type

/-- The statements of a round of the worker that are carried out. -/
inductive CleanupStatement
  | dropCrash (c : Collation) (order : ResultOrder c) (crashFootprint : String)
  | dropHangs
  | dropNoResponses

def CleanupStatement.run (db : CrashDatabase) : CleanupStatement → CrashDatabase
  | .dropCrash _ order crashFootprint =>
    db.dropTestcaseIfCrashFootprintAppearedMoreThanXTimes order 1000 crashFootprint
  | .dropHangs => db.dropTestcaseTypeIFMoreThan .Hang 10000
  | .dropNoResponses => db.dropTestcaseTypeIFMoreThan .NoResponse 10000

/-! ### Rows of a type -/

variable {db : LMDatabase} {type : TestCaseType}

theorem mem_held {id : ℕ} : id ∈ db.held type ↔
    ∃ row ∈ db.interesting_testcases, row.TestCaseType = type ∧ row.ID = id := by
  simp [LMDatabase.held, and_assoc]

theorem orderedIDs_perm (db : LMDatabase) (type : TestCaseType) : (db.orderedIDs type).Perm
    ((db.interesting_testcases.filter (·.TestCaseType = type)).map (·.ID)) :=
  List.mergeSort_perm _ _

theorem toFinset_orderedIDs (db : LMDatabase) (type : TestCaseType) :
    (db.orderedIDs type).toFinset = db.held type :=
  List.toFinset_eq_of_perm _ _ (orderedIDs_perm db type)

theorem orderedIDs_sorted (db : LMDatabase) (type : TestCaseType) :
    (db.orderedIDs type).Pairwise (· < ·) := by
  have hnodup : (db.orderedIDs type).Nodup :=
    (orderedIDs_perm db type).nodup_iff.mpr
      (db.id_unique.sublist (List.Sublist.map _ List.filter_sublist))
  have hle : (db.orderedIDs type).Pairwise (· ≤ ·) := List.pairwise_mergeSort' _ _
  exact hle.imp₂ (fun _ _ h hne => lt_of_le_of_ne h hne) hnodup

/-! ### What a deletion leaves -/

theorem eq_of_id {a b : InterestingTestcase} (ha : a ∈ db.interesting_testcases)
    (hb : b ∈ db.interesting_testcases) (h : a.ID = b.ID) : a = b :=
  List.inj_on_of_nodup_map db.id_unique ha hb h

namespace CrashDatabase

variable {cdb : CrashDatabase} {deleted : InterestingTestcase → Bool} {row : InterestingTestcase}

theorem not_deleted (hrow : row ∈ cdb.interesting_testcases) (hkept : deleted row = false) :
    (!cdb.interesting_testcases.any fun other => other.ID = row.ID && deleted other) = true := by
  rw [Bool.not_eq_true', List.any_eq_false]
  intro other hother hboth
  rw [Bool.and_eq_true, decide_eq_true_eq] at hboth
  obtain rfl := eq_of_id hother hrow hboth.1
  exact Bool.false_ne_true (hkept.symm.trans hboth.2)

theorem mem_deleteWhere_blocks (hrow : row ∈ cdb.interesting_testcases)
    (hkept : deleted row = false) {c : CoveredBlock} (hc : c.CreatorTestcaseID = row.ID) :
    c ∈ (cdb.deleteWhere deleted).covered_blocks ↔ c ∈ cdb.covered_blocks := by
  rw [deleteWhere, Finset.mem_filter, and_iff_left_iff_imp, hc]
  exact fun _ => not_deleted hrow hkept

theorem mem_deleteWhere_rows (hrow : row ∈ cdb.interesting_testcases)
    (hkept : deleted row = false) : row ∈ (cdb.deleteWhere deleted).interesting_testcases :=
  List.mem_filter.mpr ⟨hrow, by rw [hkept]; rfl⟩

variable {instances : ℕ}

/-- The row at the offset is the last of those that stay. -/
theorem mem_lowest_held (hpos : 0 < instances) (hrow : row ∈ cdb.interesting_testcases)
    (htype : row.TestCaseType = type) : row.ID ∈ lowest instances (cdb.held type) ↔
      ∀ limit, (cdb.orderedIDs type)[instances - 1]? = some limit → row.ID ≤ limit := by
  rw [← toFinset_orderedIDs]
  refine mem_lowest_iff_cut (orderedIDs_sorted _ type) hpos ?_
  rw [(orderedIDs_perm _ type).mem_iff]
  exact List.mem_map_of_mem (List.mem_filter.mpr ⟨hrow, decide_eq_true htype⟩)

end CrashDatabase

end Fluffi.LocalManager
