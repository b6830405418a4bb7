import Fluffi.Shared.RepeatedStore

/-! Testcase files that are neither used nor marked for deletion. Nothing removes such a file,
and a store of the same testcase is refused for as long as it is there. A file that a collector
has in hand counts as marked: it is removed, or goes back into the set. -/

namespace Fluffi.Shared

/-- There is such a file, and it is not marked. -/
def Host.Leftover (h : Host) (filename : String) : Prop :=
  h.files filename ≠ none ∧ filename ∉ h.m_setOfFilesToDelete

/-- What the testcase files of a directory have in common as long as none is left over. -/
structure Host.Clean (h : Host) (testcaseDir : String) : Prop where
  marked : ∀ id, h.files (generateTestcasePathAndFilename id testcaseDir) ≠ none →
    generateTestcasePathAndFilename id testcaseDir ∈ h.m_setOfFilesToDelete
  /-- A store that waits until a marked file is removed finds room for its own. -/
  storable : ∀ id (turns : List WaitTurn),
    (∃ turn, turns.find? WaitTurn.ends = some turn ∧ turn.m_stopRequested = false) →
    HasRoom h turns (generateTestcasePathAndFilename id testcaseDir)

/-- The file is opened, there being room for it. -/
def Host.Opens (h : Host) (env : StoreEnv) (filename : String) : Prop :=
  HasRoom h env.turns filename ∧ env.opens = true

/-- The name is marked although there is no file. -/
def Host.StaleMark (h : Host) (filename : String) : Prop :=
  h.files filename = none ∧ filename ∈ h.m_setOfFilesToDelete

/-- `std::remove`, and the mark that is left where it fails. -/
def Host.removeOrMark (h : Host) (removes : Bool) (filename : String) : Host :=
  if removes && (h.files filename).isSome then
    { h with files := fun f => if f = filename then none else h.files f }
  else h.markFileForDelete filename

variable {h : Host} {f filename testcaseDir : String}

theorem Host.clean_iff :
    h.Clean testcaseDir ↔ ∀ id, ¬ h.Leftover (generateTestcasePathAndFilename id testcaseDir) := by
  constructor
  · exact fun hclean id hleft => hleft.2 (hclean.marked id hleft.1)
  · intro hnone
    have hmarked : ∀ id, h.files (generateTestcasePathAndFilename id testcaseDir) ≠ none →
        generateTestcasePathAndFilename id testcaseDir ∈ h.m_setOfFilesToDelete := by
      intro id hfile
      by_contra hmark
      exact hnone id ⟨hfile, hmark⟩
    refine ⟨hmarked, fun id turns hwait => ?_⟩
    by_cases hfile : h.files (generateTestcasePathAndFilename id testcaseDir) = none
    · exact .inl hfile
    · exact .inr ⟨hmarked id hfile, hwait⟩

/-! ### What makes a file a leftover -/

theorem leftover_markFileForDelete_iff :
    (h.markFileForDelete filename).Leftover f ↔ h.Leftover f ∧ f ≠ filename := by
  unfold Host.Leftover Host.markFileForDelete
  rw [Finset.mem_insert, not_or]
  constructor
  · rintro ⟨hfile, hname, hmark⟩
    exact ⟨⟨hfile, hmark⟩, hname⟩
  · rintro ⟨⟨hfile, hmark⟩, hname⟩
    exact ⟨hfile, hname, hmark⟩

theorem leftover_collected_iff (hmarked : filename ∈ h.m_setOfFilesToDelete) :
    (h.collected filename).Leftover f ↔ h.Leftover f := by
  by_cases hname : f = filename
  · subst hname
    simp [Host.Leftover, Host.collected, hmarked]
  · simp [Host.Leftover, Host.collected, hname]

/-- Of what other threads do, only a mark changes what is left over. -/
theorem leftover_meanwhile_iff (step : Meanwhile) :
    (h.meanwhile step).Leftover f ↔ h.Leftover f ∧ step ≠ .markFileForDelete f := by
  cases step with
  | markFileForDelete fileToDelete =>
    rw [Host.meanwhile, leftover_markFileForDelete_iff, ne_eq, ne_eq,
      Meanwhile.markFileForDelete.injEq, eq_comm]
  | collectGarbage fileToDelete =>
    have hkept : (h.meanwhile (.collectGarbage fileToDelete)).Leftover f ↔ h.Leftover f := by
      rw [Host.meanwhile]
      split
      next hmarked => exact leftover_collected_iff hmarked
      next => exact Iff.rfl
    simp [hkept]

theorem leftover_afterwards_iff (steps : List Meanwhile) :
    (h.afterwards steps).Leftover f ↔ h.Leftover f ∧ .markFileForDelete f ∉ steps := by
  induction steps generalizing h with
  | nil => simp [Host.afterwards]
  | cons step steps ih =>
    have hsteps : (h.afterwards (step :: steps)).Leftover f ↔
        ((h.meanwhile step).afterwards steps).Leftover f := Iff.rfl
    rw [hsteps, ih, leftover_meanwhile_iff, List.mem_cons, not_or, and_assoc, ne_comm]

/-- What is left over in the end has not been touched. -/
theorem afterwards_files (steps : List Meanwhile) (hf : (h.afterwards steps).Leftover f) :
    (h.afterwards steps).files f = h.files f := by
  induction steps generalizing h with
  | nil => rfl
  | cons step steps ih =>
    have hrest := ih hf
    have hleft := ((leftover_afterwards_iff steps).mp hf).1
    refine hrest.trans ?_
    cases step with
    | markFileForDelete fileToDelete => rfl
    | collectGarbage fileToDelete =>
      rw [Host.meanwhile] at hleft ⊢
      split at hleft
      next hmarked =>
        rw [if_pos hmarked]
        have hname : f ≠ fileToDelete := by
          rintro rfl
          exact hleft.1 (if_pos rfl)
        exact if_neg hname
      next hmarked => rw [if_neg hmarked]

/-- A file that is removed or marked is no leftover, and no other file becomes one. -/
theorem leftover_removeOrMark {removes : Bool}
    (hf : (h.removeOrMark removes filename).Leftover f) : f ≠ filename ∧ h.Leftover f := by
  obtain ⟨hfile, hmark⟩ := hf
  by_cases hname : f = filename
  · subst hname
    unfold Host.removeOrMark at hfile hmark
    split at hfile
    · simp at hfile
    next hfails =>
      rw [if_neg hfails] at hmark
      exact absurd (Finset.mem_insert_self _ _) hmark
  · refine ⟨hname, ?_⟩
    unfold Host.removeOrMark at hfile hmark
    split at hfile
    next hremoved =>
      rw [if_pos hremoved] at hmark
      simpa [Host.Leftover, hname] using And.intro hfile hmark
    next hfails =>
      rw [if_neg hfails] at hmark
      exact (leftover_markFileForDelete_iff.mp ⟨hfile, hmark⟩).1

theorem leftover_write_iff {content : Bytes} :
    (h.write filename content).Leftover f ↔
      (f = filename ∧ filename ∉ h.m_setOfFilesToDelete) ∨ (f ≠ filename ∧ h.Leftover f) := by
  by_cases hname : f = filename <;> simp [Host.Leftover, Host.write, hname]

/-! ### Stores -/

section Store

variable {env : StoreEnv} {ask : ℕ → Except Abnormal (Option GetTestCaseChunkResponse)}
  {testcaseId : FluffiTestcaseID} {firstChunk : Bytes} {isLastChunk : Bool} {stored : Stored}

/-- A file that is opened is written, in the place of the one that was collected. -/
theorem store_opened
    (hopens : h.Opens env (generateTestcasePathAndFilename testcaseId testcaseDir))
    (hs : storeTestcaseFileOnDisk h env ask testcaseId testcaseDir firstChunk isLastChunk =
      .ok stored) :
    ∃ h' content, makeRoom h env.turns (generateTestcasePathAndFilename testcaseId testcaseDir) =
        .ok (some h') ∧
      stored.host = h'.write (generateTestcasePathAndFilename testcaseId testcaseDir) content := by
  obtain ⟨h', hmake⟩ := hopens.1.makeRoom
  rw [store_eq firstChunk isLastChunk hmake, if_pos hopens.2] at hs
  cases isLastChunk with
  | true =>
    rw [← Except.ok.inj hs]
    exact ⟨h', firstChunk, hmake, rfl⟩
  | false =>
    rw [if_neg (by decide)] at hs
    obtain ⟨appended, _, rfl⟩ := map_eq_ok hs
    exact ⟨h', appended.outstream, hmake, rfl⟩

/-- The two ways to make room. -/
theorem makeRoom_some {h' : Host} {turns : List WaitTurn}
    (hmake : makeRoom h turns filename = .ok (some h')) :
    (h.files filename = none ∧ h' = h) ∨
      (h.files filename ≠ none ∧ h' = h.collected filename) := by
  unfold makeRoom at hmake
  split at hmake
  next hnone => exact .inl ⟨hnone, (Option.some.inj (Except.ok.inj hmake)).symm⟩
  next content hfile =>
    refine .inr ⟨by simp [hfile], ?_⟩
    split at hmake
    · obtain ⟨deleted, _, hroom⟩ := map_eq_ok hmake
      cases deleted with
      | false => cases hroom
      | true => exact (Option.some.inj hroom).symm
    · cases hmake

/-- Making room takes no file away that is left over, and leaves none. -/
theorem leftover_makeRoom_iff {h' : Host} {turns : List WaitTurn}
    (hmake : makeRoom h turns filename = .ok (some h')) : h'.Leftover f ↔ h.Leftover f := by
  rcases makeRoom_some hmake with ⟨_, rfl⟩ | ⟨hfile, rfl⟩
  · exact Iff.rfl
  · have hmarked : filename ∈ h.m_setOfFilesToDelete := by
      rcases makeRoom_cases h turns filename with ⟨_, _, hwait⟩ | ⟨_, hroom, _⟩ | ⟨_, _, hno⟩
      · rw [hwait] at hmake
        cases hmake
      · exact (hroom.resolve_left hfile).1
      · rw [hno] at hmake
        cases hmake
    exact leftover_collected_iff hmarked

theorem store_unopened
    (hopens : ¬ h.Opens env (generateTestcasePathAndFilename testcaseId testcaseDir))
    (hs : storeTestcaseFileOnDisk h env ask testcaseId testcaseDir firstChunk isLastChunk =
      .ok stored) :
    stored.host = h ∨ makeRoom h env.turns (generateTestcasePathAndFilename testcaseId
      testcaseDir) = .ok (some stored.host) := by
  rcases makeRoom_cases h env.turns (generateTestcasePathAndFilename testcaseId testcaseDir) with
    ⟨_, _, hmake⟩ | ⟨_, hroom, h', hmake⟩ | ⟨_, _, hmake⟩
  · rw [storeTestcaseFileOnDisk, hmake] at hs
    cases hs
  · rw [store_eq firstChunk isLastChunk hmake, if_neg fun ho => hopens ⟨hroom, ho⟩] at hs
    obtain rfl := Except.ok.inj hs
    exact .inr hmake
  · rw [storeTestcaseFileOnDisk, hmake] at hs
    obtain rfl := Except.ok.inj hs
    exact .inl rfl

/-- A store leaves its file over if it opens it, and no mark was waiting for it. -/
theorem leftover_store_iff
    (hs : storeTestcaseFileOnDisk h env ask testcaseId testcaseDir firstChunk isLastChunk =
      .ok stored) :
    stored.host.Leftover f ↔ h.Leftover f ∨
      (f = generateTestcasePathAndFilename testcaseId testcaseDir ∧
        h.Opens env (generateTestcasePathAndFilename testcaseId testcaseDir) ∧
        ¬ h.StaleMark (generateTestcasePathAndFilename testcaseId testcaseDir)) := by
  by_cases hopens : h.Opens env (generateTestcasePathAndFilename testcaseId testcaseDir)
  · obtain ⟨h', content, hmake, hhost⟩ := store_opened hopens hs
    have hkept := leftover_makeRoom_iff (f := f) hmake
    have hfree : ¬ h.Leftover (generateTestcasePathAndFilename testcaseId testcaseDir) :=
      fun hleft => hopens.1.elim hleft.1 fun hmarked => hleft.2 hmarked.1
    have hmark : generateTestcasePathAndFilename testcaseId testcaseDir ∉
          h'.m_setOfFilesToDelete ↔
        ¬ h.StaleMark (generateTestcasePathAndFilename testcaseId testcaseDir) := by
      rcases makeRoom_some hmake with ⟨hnone, rfl⟩ | ⟨hfile, rfl⟩
      · simp [Host.StaleMark, hnone]
      · simp [Host.StaleMark, Host.collected, hfile]
    rw [hhost, leftover_write_iff, hmark, hkept]
    by_cases hname : f = generateTestcasePathAndFilename testcaseId testcaseDir
    · subst hname
      simp [hfree, hopens]
    · simp [hname]
  · have hkept : stored.host.Leftover f ↔ h.Leftover f := by
      rcases store_unopened hopens hs with hhost | hmake
      · rw [hhost]
      · exact leftover_makeRoom_iff hmake
    simp [hkept, hopens]

/-- A store that returns is successful exactly if it opens the file and no chunk that it
needs is missing. -/
theorem store_success_eq
    (hs : storeTestcaseFileOnDisk h env ask testcaseId testcaseDir firstChunk isLastChunk =
      .ok stored) :
    stored.success = true ↔
      h.Opens env (generateTestcasePathAndFilename testcaseId testcaseDir) ∧
        (isLastChunk = false → Answers ask 1) := by
  have hall : (∀ s, storeTestcaseFileOnDisk h env ask testcaseId testcaseDir firstChunk
      isLastChunk = .ok s → s.success = true) ↔ stored.success = true := by
    constructor
    · exact fun hforall => hforall stored hs
    · intro hsuccess s hs'
      rw [hs] at hs'
      rw [← Except.ok.inj hs', hsuccess]
  have hreturns := (store_returns_iff firstChunk isLastChunk).mp ⟨stored, hs⟩
  rw [← hall, store_success_iff, or_iff_right hreturns.1, Host.Opens, and_assoc]

end Store

end Fluffi.Shared
