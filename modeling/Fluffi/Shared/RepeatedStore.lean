import Fluffi.Shared.ReceivedFiles

/-! A store that failed and is repeated. Between the two calls other workers mark
files for deletion and the garbage collector removes what is marked. A file that
could not be opened is not there the second time. A file that lost a chunk stays,
unmarked, and the second call does not overwrite it. -/

namespace Fluffi.Shared

/-- What other threads do between two calls. -/
inductive Meanwhile where
  | markFileForDelete (fileToDelete : String)
  | collectGarbage (fileToDelete : String)

/-- A round of the collector picks marked files only. -/
def Host.meanwhile (h : Host) : Meanwhile → Host
  | .markFileForDelete fileToDelete => h.markFileForDelete fileToDelete
  | .collectGarbage fileToDelete =>
    if fileToDelete ∈ h.m_setOfFilesToDelete then h.collected fileToDelete else h

def Host.afterwards (h : Host) (steps : List Meanwhile) : Host := steps.foldl Host.meanwhile h

/-- The file is removed: it is marked before the steps or by one of them, and
after that it is collected, at the latest while the second store waits. -/
def Removed (filename : String) (turns : List WaitTurn) : List Meanwhile → Prop → Prop
  | [], marked => marked ∧
      ∃ turn, turns.find? WaitTurn.ends = some turn ∧ turn.m_stopRequested = false
  | .markFileForDelete fileToDelete :: steps, marked =>
      Removed filename turns steps (marked ∨ filename = fileToDelete)
  | .collectGarbage fileToDelete :: steps, marked =>
      (marked ∧ filename = fileToDelete) ∨ Removed filename turns steps marked

variable {h : Host} {filename : String} {turns : List WaitTurn}

/-! ### Between the calls -/

theorem meanwhile_missing (hnone : h.files filename = none) (step : Meanwhile) :
    (h.meanwhile step).files filename = none := by
  cases step with
  | markFileForDelete fileToDelete => exact hnone
  | collectGarbage fileToDelete =>
    simp only [Host.meanwhile]
    split
    · simp only [Host.collected]
      split
      · rfl
      · exact hnone
    · exact hnone

theorem afterwards_missing (hnone : h.files filename = none) (steps : List Meanwhile) :
    (h.afterwards steps).files filename = none := by
  induction steps generalizing h with
  | nil => exact hnone
  | cons step steps ih => exact ih (meanwhile_missing hnone step)

/-- There is room for a file that exists exactly if it is removed in time. -/
theorem hasRoom_afterwards_iff {content : Bytes} (hsome : h.files filename = some content)
    (steps : List Meanwhile) :
    HasRoom (h.afterwards steps) turns filename ↔
      Removed filename turns steps (filename ∈ h.m_setOfFilesToDelete) := by
  induction steps generalizing h with
  | nil => simp [HasRoom, Host.afterwards, Removed, hsome]
  | cons step steps ih =>
    cases step with
    | markFileForDelete fileToDelete =>
      have hrest := @ih (h.markFileForDelete fileToDelete) hsome
      simp only [Host.markFileForDelete, Finset.mem_insert] at hrest
      simp only [Removed]
      rw [or_comm, ← hrest]
      rfl
    | collectGarbage fileToDelete =>
      have hstep : h.afterwards (.collectGarbage fileToDelete :: steps) =
          (h.meanwhile (.collectGarbage fileToDelete)).afterwards steps := rfl
      rw [hstep, Host.meanwhile, Removed]
      by_cases hmarked : fileToDelete ∈ h.m_setOfFilesToDelete
      · rw [if_pos hmarked]
        by_cases hname : filename = fileToDelete
        · subst hname
          have hgone : (h.collected filename).files filename = none := by
            simp [Host.collected]
          exact iff_of_true (.inl (afterwards_missing hgone steps)) (.inl ⟨hmarked, rfl⟩)
        · have hkept : (h.collected fileToDelete).files filename = some content := by
            simp [Host.collected, hname, hsome]
          have hmark : filename ∈ (h.collected fileToDelete).m_setOfFilesToDelete ↔
              filename ∈ h.m_setOfFilesToDelete := by
            simp [Host.collected, hname]
          rw [ih hkept, hmark]
          simp [hname]
      · rw [if_neg hmarked, ih hsome]
        have hnot : ¬ (filename ∈ h.m_setOfFilesToDelete ∧ filename = fileToDelete) := by
          rintro ⟨hmem, rfl⟩
          exact hmarked hmem
        simp [hnot]

/-! ### The first call -/

section Store

variable {env env' : StoreEnv}
  {ask ask' : ℕ → Except Abnormal (Option GetTestCaseChunkResponse)}
  {testcaseId : FluffiTestcaseID} {testcaseDir : String}
  {firstChunk firstChunk' content : Bytes} {isLastChunk isLastChunk' : Bool} {first : Stored}

/-- What a failed store leaves where there was no file: nothing at all if the file
could not be opened, and otherwise a part of the testcase that is not marked. -/
theorem store_failed
    (hnone : h.files (generateTestcasePathAndFilename testcaseId testcaseDir) = none)
    (hfirst : storeTestcaseFileOnDisk h env ask testcaseId testcaseDir firstChunk isLastChunk =
      .ok first) (hfailed : first.success = false) :
    (env.opens = false ∧ first.host = h) ∨ (env.opens = true ∧ ∃ received,
      first.host = h.write (generateTestcasePathAndFilename testcaseId testcaseDir) received) := by
  have hmake : makeRoom h env.turns (generateTestcasePathAndFilename testcaseId testcaseDir) =
      .ok (some h) := by
    rw [makeRoom, hnone]
  rw [store_eq firstChunk isLastChunk hmake] at hfirst
  cases hopens : env.opens with
  | false =>
    rw [hopens, if_neg (by decide)] at hfirst
    obtain rfl := Except.ok.inj hfirst
    exact .inl ⟨rfl, rfl⟩
  | true =>
    rw [hopens, if_pos rfl] at hfirst
    cases isLastChunk with
    | true =>
      obtain rfl := Except.ok.inj hfirst
      cases hfailed
    | false =>
      rw [if_neg (by decide)] at hfirst
      obtain ⟨appended, _, rfl⟩ := map_eq_ok hfirst
      exact .inr ⟨rfl, appended.outstream, rfl⟩

/-! ### The second call -/

/-- A store that failed can be repeated exactly if the second call can open the
file, and the first one could not, or the file it left is removed in time. -/
theorem store_again_iff
    (hnone : h.files (generateTestcasePathAndFilename testcaseId testcaseDir) = none)
    (hfirst : storeTestcaseFileOnDisk h env ask testcaseId testcaseDir firstChunk isLastChunk =
      .ok first) (hfailed : first.success = false) (steps : List Meanwhile)
    (hreceived : Received ask' firstChunk' isLastChunk' content) :
    (∃ second, storeTestcaseFileOnDisk (first.host.afterwards steps) env' ask' testcaseId
        testcaseDir firstChunk' isLastChunk' = .ok second ∧ second.success = true ∧
      second.host.files (generateTestcasePathAndFilename testcaseId testcaseDir) =
        some content) ↔
    env'.opens = true ∧ (env.opens = false ∨
      Removed (generateTestcasePathAndFilename testcaseId testcaseDir) env'.turns steps
        (generateTestcasePathAndFilename testcaseId testcaseDir ∈ h.m_setOfFilesToDelete)) := by
  rw [store_received]
  obtain ⟨hopens, hhost⟩ | ⟨hopens, received, hhost⟩ := store_failed hnone hfirst hfailed
  · have hroom : HasRoom (first.host.afterwards steps) env'.turns
        (generateTestcasePathAndFilename testcaseId testcaseDir) := by
      rw [hhost]
      exact .inl (afterwards_missing hnone steps)
    simp [hroom, hopens, hreceived]
  · have hsome : first.host.files (generateTestcasePathAndFilename testcaseId testcaseDir) =
        some received := by
      rw [hhost, Host.write_files]
    have hmark : first.host.m_setOfFilesToDelete = h.m_setOfFilesToDelete := by
      rw [hhost, Host.write]
    rw [hasRoom_afterwards_iff hsome, hmark, hopens]
    simp only [hreceived, and_true, Bool.true_eq_false, false_or]
    exact and_comm

end Store

/-! ### A lost chunk -/

def noAnswer : ℕ → Except Abnormal (Option GetTestCaseChunkResponse) := fun _ => .ok none

def oneMoreChunk : ℕ → Except Abnormal (Option GetTestCaseChunkResponse) :=
  fun k => .ok (some ⟨k, [2], true⟩)

theorem received_oneMoreChunk : Received oneMoreChunk [1] false [1, 2] :=
  ⟨[2], fetches_iff.mpr ⟨by decide, ⟨1, [2], true⟩, rfl, rfl⟩, rfl⟩

def twoChunks : FluffiTestcaseID := ⟨⟨"", "generator"⟩, 7⟩

def twoChunksFile : String := generateTestcasePathAndFilename twoChunks "temp"

def noFiles (marked : Finset String) : Host := ⟨fun _ => none, marked⟩

theorem store_noAnswer (marked : Finset String) :
    storeTestcaseFileOnDisk (noFiles marked) ⟨[], true⟩ noAnswer twoChunks "temp" [1] false =
      .ok ⟨false, (noFiles marked).write twoChunksFile [1], [1]⟩ := rfl

/-- The file name was marked before, so the part that is left is collected. -/
theorem store_again_marked : ∃ first second,
    storeTestcaseFileOnDisk (noFiles {twoChunksFile}) ⟨[], true⟩ noAnswer twoChunks "temp" [1]
      false = .ok first ∧ first.success = false ∧
    storeTestcaseFileOnDisk (first.host.afterwards []) ⟨[⟨false, true⟩], true⟩ oneMoreChunk
      twoChunks "temp" [1] false = .ok second ∧ second.success = true ∧
    second.host.files twoChunksFile = some [1, 2] := by
  have hremoved : Removed twoChunksFile [⟨false, true⟩] []
      (twoChunksFile ∈ (noFiles {twoChunksFile}).m_setOfFilesToDelete) :=
    ⟨Finset.mem_singleton_self _, _, rfl, rfl⟩
  have hfirst := store_noAnswer {twoChunksFile}
  have hagain : ∃ second, storeTestcaseFileOnDisk
      (((noFiles {twoChunksFile}).write twoChunksFile [1]).afterwards []) ⟨[⟨false, true⟩], true⟩
      oneMoreChunk twoChunks "temp" [1] false = .ok second ∧ second.success = true ∧
        second.host.files twoChunksFile = some [1, 2] :=
    (store_again_iff rfl hfirst rfl [] received_oneMoreChunk).mpr ⟨rfl, .inr hremoved⟩
  obtain ⟨second, hsecond⟩ := hagain
  exact ⟨_, second, hfirst, rfl, hsecond⟩

/-- Without a mark the part stays, and the second call is refused. -/
theorem lost_chunk_blocks : ∃ first,
    storeTestcaseFileOnDisk (noFiles ∅) ⟨[], true⟩ noAnswer twoChunks "temp" [1] false =
      .ok first ∧ first.success = false ∧
    Received oneMoreChunk [1] false [1, 2] ∧
    storeTestcaseFileOnDisk first.host ⟨[], true⟩ oneMoreChunk twoChunks "temp" [1] false =
      .ok ⟨false, first.host, []⟩ ∧
    first.host.files twoChunksFile = some [1] := by
  refine ⟨_, store_noAnswer ∅, rfl, received_oneMoreChunk, ?_, Host.write_files ..⟩
  have hmake : makeRoom ((noFiles ∅).write twoChunksFile [1]) [] twoChunksFile = .ok none := by
    rw [makeRoom, Host.write_files]
    simp [Host.isFileMarkedForDeletion, Host.write, noFiles]
  rw [storeTestcaseFileOnDisk]
  simp only
  rw [← twoChunksFile, hmake]
  rfl

end Fluffi.Shared
