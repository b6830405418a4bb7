import Fluffi.LocalManager.Entries
import Fluffi.LocalManager.RefusedEvaluations

/-! The blocks that are recorded for a testcase. An evaluation that is answered with success after a
clean exit leaves the testcase in the population with the blocks that were reported, whatever was
recorded for it before. -/

namespace Fluffi.LocalManager

open Shared

/-- The testcase is in the population, with these blocks and no others. -/
def HasExactly (db : LMDatabase) (k : TestcaseKey) (blocks : List FluffiBasicBlock) : Prop :=
  ∃ entry, entry.Creator = k ∧ entry.TestCaseType = .Population ∧ HasEntry db entry ∧
    ∀ c : CoveredBlock, c.CreatorTestcaseID = entry.ID →
      (c ∈ db.covered_blocks ↔ ∃ b ∈ blocks, c.stored = storedBlock b)

variable {k : TestcaseKey} {db db' : LMDatabase} {blocks blocks' : List FluffiBasicBlock}
  {accepts : Statement → Bool} {m_testcaseDir : String} {env : RequestEnv} {s s' : LMState}
  {req : PutTestEvaluationRequest}

namespace HasExactly

theorem congr (h : HasExactly db k blocks) (hblocks : ∀ b, b ∈ blocks ↔ b ∈ blocks') :
    HasExactly db k blocks' := by
  obtain ⟨entry, hk, htype, hentry, hiff⟩ := h
  refine ⟨entry, hk, htype, hentry, fun c hc => (hiff c hc).trans ?_⟩
  simp only [hblocks]

/-- It stays so when neither the testcase nor a row of the population is touched. -/
theorem change {touched : InterestingTestcase → Prop} {added : List FluffiBasicBlock}
    (h : HasExactly db k blocks) (hchange : Change touched added db db')
    (hfree : ∀ entry, entry.Creator = k → entry.TestCaseType = .Population → ¬ touched entry) :
    HasExactly db' k blocks := by
  obtain ⟨entry, hk, htype, hentry, hiff⟩ := h
  have hkeeps := hchange.keeps entry hentry (hfree entry hk htype)
  exact ⟨entry, hk, htype, hkeeps.stays, fun c hc => (hkeeps.blocks c hc).trans (hiff c hc)⟩

end HasExactly

/-- An insert adds one row. Neither a block nor a crash refers to its ID. -/
theorem insertInteresting_fresh {creator parent : TestcaseKey} {rating : ℤ} {rawBytes : Bytes}
    {type : TestCaseType}
    (h : db.insertInteresting creator parent rating rawBytes type = some db') :
    ∃ row ∈ db'.interesting_testcases, row.Creator = creator ∧
      (∀ cd ∈ db'.crash_descriptions, cd.CreatorTestcaseID ≠ row.ID) ∧
      ∀ c ∈ db'.covered_blocks, c.CreatorTestcaseID ≠ row.ID := by
  simp only [LMDatabase.insertInteresting, Option.dite_none_right_eq_some, Option.some.injEq] at h
  obtain ⟨-, rfl⟩ := h
  have hfresh {id : ℕ} (hid : ∃ row ∈ db.interesting_testcases, row.ID = id) :
      id ≠ db.nextID := by
    obtain ⟨row, hrow, rfl⟩ := hid
    exact (db.id_lt row hrow).ne
  exact ⟨_, List.mem_append_right _ (List.mem_singleton_self _), rfl,
    fun cd hcd => hfresh (db.crash_reference cd hcd),
    fun c hc => hfresh (db.block_reference c hc)⟩

theorem mem_addBlocks {row : InterestingTestcase} {tcID : FluffiTestcaseID}
    (hrow : row ∈ db.interesting_testcases) (hcreator : row.Creator = tcID.key)
    (h : addBlocksToCoveredBlocks accepts db tcID blocks.toFinset = (true, db')) :
    db'.interesting_testcases = db.interesting_testcases ∧
      db'.crash_descriptions = db.crash_descriptions ∧ ∀ c, c ∈ db'.covered_blocks ↔
        c ∈ db.covered_blocks ∨
          c.CreatorTestcaseID = row.ID ∧ ∃ b ∈ blocks, c.stored = storedBlock b := by
  unfold addBlocksToCoveredBlocks at h
  split at h
  case isFalse => cases h
  split at h
  · rename_i only honly
    have hmem : row ∈ db.rowsOf tcID.key := List.mem_filter.mpr ⟨hrow, decide_eq_true hcreator⟩
    rw [honly, List.mem_singleton] at hmem
    subst hmem
    split at h
    · rename_i hempty
      obtain ⟨-, rfl⟩ := Prod.mk.inj h
      rw [Finset.card_eq_zero, List.toFinset_eq_empty_iff] at hempty
      refine ⟨rfl, rfl, fun c => (or_iff_left ?_).symm⟩
      rintro ⟨-, b, hb, -⟩
      rw [hempty] at hb
      cases hb
    · split at h
      · obtain ⟨-, rfl⟩ := Prod.mk.inj h
        exact ⟨rfl, rfl, fun c => mem_insertBlocks hrow⟩
      · cases h
  · cases h

/-- A testcase without a block gets the blocks and joins the population, or the details are not
recorded. -/
theorem recordDetails_population {row : InterestingTestcase}
    (hrow : row ∈ db.interesting_testcases) (hcreator : row.Creator = req.id.key)
    (hcrash : ∀ cd ∈ db.crash_descriptions, cd.CreatorTestcaseID ≠ row.ID)
    (hblocks : ∀ c ∈ db.covered_blocks, c.CreatorTestcaseID ≠ row.ID)
    (h : recordDetails accepts db req .Population = (true, db')) :
    HasExactly db' req.id.key req.result.m_blocks := by
  unfold recordDetails at h
  rw [if_neg (by decide), if_pos rfl] at h
  cases hadd : addBlocksToCoveredBlocks accepts db req.id req.result.m_blocks.toFinset with
  | mk added db₂ =>
    rw [hadd] at h
    cases added with
    | false => cases h
    | true =>
      obtain ⟨hrows, hcrashes, hadded⟩ := mem_addBlocks hrow hcreator hadd
      replace h : setTestcaseType accepts db₂ req.id .Population = (true, db') := h
      unfold setTestcaseType at h
      split at h
      case isFalse => cases h
      obtain ⟨-, rfl⟩ := Prod.mk.inj h
      refine ⟨{ row with TestCaseType := .Population }, hcreator, rfl, ⟨⟨row.Rating, ?_⟩, ?_⟩,
        fun c hid => ?_⟩
      · exact List.mem_map.mpr ⟨row, hrows ▸ hrow, if_pos hcreator⟩
      · exact fun cd hcd => hcrash cd (hcrashes ▸ hcd)
      · refine (hadded c).trans ?_
        rw [or_iff_right fun hc => hblocks c hc hid, and_iff_right hid]

/-- A testcase that is kept after a clean exit has the blocks that were reported. -/
theorem hasExactly_keepTestcase (hclean : req.result.m_exitType = .CleanExit)
    (h : keepTestcase m_testcaseDir env s req = .ok (true, s')) :
    HasExactly s'.db req.id.key req.result.m_blocks := by
  have htype : tcTypeOf req.result.m_exitType = .Population := by rw [hclean]; rfl
  obtain ⟨hfalse, -⟩ | ⟨db₁, hdb₁, hrecord⟩ := keepTestcase_cases h
  · cases hfalse
  rw [htype] at hdb₁ hrecord
  rcases hdb₁ with rfl | ⟨parent, rating, rawBytes, hinsert⟩
  · -- without a row the blocks cannot be recorded
    unfold recordDetails at hrecord
    rw [if_neg (by decide), if_pos rfl] at hrecord
    have hadd := addBlocks_success_iff env.accepts (s.db.deleteInteresting req.id.key) req.id
      req.result.m_blocks.toFinset
    rw [rowsOf_deleteInteresting] at hadd
    cases hresult : addBlocksToCoveredBlocks env.accepts (s.db.deleteInteresting req.id.key)
        req.id req.result.m_blocks.toFinset with
    | mk added db₂ =>
      rw [hresult] at hadd hrecord
      cases added with
      | false => cases hrecord
      | true => exact absurd rfl (hadd.mp rfl).2.1
  · obtain ⟨row, hrow, hcreator, hcrash, hblocks⟩ := insertInteresting_fresh hinsert
    exact recordDetails_population hrow hcreator hcrash hblocks hrecord

theorem hasExactly_evaluation (hkeep : req.eval = .Keep)
    (hclean : req.result.m_exitType = .CleanExit)
    (h : handlePutTestEvaluationRequest m_testcaseDir env s req = .ok (true, s')) :
    HasExactly s'.db req.id.key req.result.m_blocks := by
  obtain ⟨s₁, -, ⟨-, hfail | hother⟩ | ⟨-, hkept⟩⟩ := evaluation_cases h
  · cases hfail
  · exact absurd hkeep hother
  · exact hasExactly_keepTestcase hclean hkept

end Fluffi.LocalManager
