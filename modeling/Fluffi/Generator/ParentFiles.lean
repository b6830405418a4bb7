import Fluffi.Generator.Producers
import Fluffi.Shared.MarkedFiles

/-! The parents of the queue filler. A parent is stored in a directory of its own, may be queued
without mutation, is mutated and removed. Storing and queueing happen in one function, and
where this one throws, the loop goes on with the next parent. -/

namespace Fluffi.Generator

open Shared Systems
open LocalManager (GetTestcaseToMutateResponse)

structure QueueFillerConfig where
  m_testcaseDirectory : String
  m_queueFillerTempDir : String
  m_desiredQueueFillLevel : ℕ
  m_maxBulkGenerationSize : ℤ

/-- What `TestcaseGenerator.cpp` hands to the queue filler. -/
def queueFillerConfig (testcaseDir : String) (desiredQueueFillLevel : ℕ)
    (maxBulkGenerationSize : ℤ) : QueueFillerConfig :=
  ⟨testcaseDir, testcaseDir ++ pathSeperator ++ "queueFillerTempDir", desiredQueueFillLevel,
    maxBulkGenerationSize⟩

/-- The queue filler, the queue it fills, and the files of `m_queueFillerTempDir`. -/
structure QueueFiller where
  host : Host
  m_gotConfigFromLM : Bool
  m_mutatorNeedsParents : Bool
  m_bulkGenerationSize : ℤ
  m_pendingTestcaseQueue : List NewTestcase

/-- What `getNewParent` meets. `isQueued` is the result of `exists`, if it does not throw; a
copy and a push may throw as well. -/
structure NewParent where
  resp : Option GetTestcaseToMutateResponse
  env : StoreEnv
  ask : ℕ → Except Abnormal (Option GetTestCaseChunkResponse)
  isQueued : Option Bool
  copies : Bool
  pushes : Bool

/-- One turn of the loop. `tryGetConfigFromLM` says if the mutator needs parents, unless it
fails. Other threads come in while the parent is mutated. There are no children where
`batchMutate`, or what is done with them, throws. -/
structure QueueFillerTurn extends NewParent where
  tryGetConfigFromLM : Option Bool
  meanwhile : List Meanwhile
  children : Option (List NewTestcase)
  removes : Bool

inductive QueueFillerEvent where
  | turn (turn : QueueFillerTurn)
  | otherThread (step : Meanwhile)
  | popPendingTCForProcessing

/-- The unmodified parent is queued if it has to be; `none` where an exception is thrown. -/
def QueueFiller.queueOriginal (config : QueueFillerConfig) (parent : NewParent)
    (receivedTestcase : GetTestcaseToMutateResponse) (s : QueueFiller) : Option QueueFiller :=
  if !receivedTestcase.alsorunwithoutmutation then some s
  else
    match parent.isQueued with
    | none => none
    | some isQueued =>
      if isQueued || (parent.copies && parent.pushes) then
        some { s with m_pendingTestcaseQueue := s.m_pendingTestcaseQueue ++
          originalToRun receivedTestcase config.m_testcaseDirectory isQueued }
      else none

/-- The parent that is now to be taken care of; `none` where an exception is thrown. -/
def getNewParent (config : QueueFillerConfig) (parent : NewParent) (s : QueueFiller) :
    Except Abnormal (QueueFiller × Option FluffiTestcaseID) :=
  match parent.resp with
  | none => .ok (s, none)
  | some receivedTestcase =>
    (storeTestcaseFileOnDisk s.host parent.env parent.ask receivedTestcase.id
        config.m_queueFillerTempDir receivedTestcase.testcasefirstchunk
        receivedTestcase.islastchunk).map fun stored =>
      let s := { s with host := stored.host }
      if !stored.success then (s, none)
      else
        match s.queueOriginal config parent receivedTestcase with
        | none => (s, none)
        | some s => (s, some receivedTestcase.id)

/-- Mutate the parent and adapt the size of the next bulk. -/
def QueueFiller.mutate (config : QueueFillerConfig) (children : Option (List NewTestcase))
    (s : QueueFiller) : QueueFiller :=
  match children with
  | some [] => s
  | some children =>
    { s with
      m_pendingTestcaseQueue := s.m_pendingTestcaseQueue ++ children
      m_bulkGenerationSize :=
        if s.m_bulkGenerationSize < config.m_maxBulkGenerationSize then s.m_bulkGenerationSize + 1
        else s.m_bulkGenerationSize }
  | none =>
    { s with
      m_bulkGenerationSize :=
        if 1 < s.m_bulkGenerationSize then s.m_bulkGenerationSize - 1
        else s.m_bulkGenerationSize }

/-- The rest of the loop body, once it has its parent. -/
def QueueFiller.useParent (config : QueueFillerConfig) (turn : QueueFillerTurn)
    (parentID : FluffiTestcaseID) (s : QueueFiller) : QueueFiller :=
  let s := { s.mutate config turn.children with host := s.host.afterwards turn.meanwhile }
  if s.m_mutatorNeedsParents then
    let parentPathAndFileName :=
      generateTestcasePathAndFilename parentID config.m_queueFillerTempDir
    { s with host := s.host.removeOrMark turn.removes parentPathAndFileName }
  else s

/-- The worker as the turn finds it once it has asked for its configuration. -/
def QueueFiller.configured (turn : QueueFillerTurn) (s : QueueFiller) : QueueFiller :=
  if s.m_gotConfigFromLM then s
  else
    match turn.tryGetConfigFromLM with
    | none => s
    | some needsParents =>
      { s with m_gotConfigFromLM := true, m_mutatorNeedsParents := needsParents }

/-- The loop body of `QueueFillerWorker::workerMain`. -/
def QueueFiller.loopBody (config : QueueFillerConfig) (turn : QueueFillerTurn) (s : QueueFiller) :
    Except Abnormal QueueFiller :=
  let s := s.configured turn
  if !s.m_gotConfigFromLM then .ok s
  else if config.m_desiredQueueFillLevel < s.m_pendingTestcaseQueue.length then .ok s
  else if s.m_mutatorNeedsParents then
    (getNewParent config turn.toNewParent s).map fun
      | (s, none) => s
      | (s, some parentID) => s.useParent config turn parentID
  else .ok (s.useParent config turn ⟨⟨"", ""⟩, 0⟩)

/-- From one loop head to the next, and what other threads do at a loop head. -/
def QueueFiller.next (config : QueueFillerConfig) (s : QueueFiller) :
    QueueFillerEvent → Option QueueFiller
  | .turn turn => (s.loopBody config turn).toOption
  | .otherThread step => some { s with host := s.host.meanwhile step }
  | .popPendingTCForProcessing =>
    some { s with m_pendingTestcaseQueue := s.m_pendingTestcaseQueue.tail }

/-! ### When a parent is taken care of -/

/-- The turn asks for a parent. -/
def QueueFiller.WantsParent (config : QueueFillerConfig) (turn : QueueFillerTurn)
    (s : QueueFiller) : Prop :=
  (s.configured turn).m_gotConfigFromLM = true ∧
    s.m_pendingTestcaseQueue.length ≤ config.m_desiredQueueFillLevel ∧
    (s.configured turn).m_mutatorNeedsParents = true

/-- The original is queued if it has to be and is not yet. -/
def NewParent.OriginalQueued (parent : NewParent)
    (receivedTestcase : GetTestcaseToMutateResponse) : Prop :=
  receivedTestcase.alsorunwithoutmutation = true → parent.isQueued = some true ∨
    (parent.isQueued = some false ∧ parent.copies = true ∧ parent.pushes = true)

/-- Nothing goes wrong between the opening of the parent's file and the end of `getNewParent`. -/
def NewParent.Complete (parent : NewParent) (receivedTestcase : GetTestcaseToMutateResponse) :
    Prop :=
  (receivedTestcase.islastchunk = false → Answers parent.ask 1) ∧
    parent.OriginalQueued receivedTestcase

/-- A turn that opens a file for a parent gets to the end of `getNewParent`, unless there was
a mark waiting for the file. -/
def TakesCare (config : QueueFillerConfig) (s : QueueFiller) : QueueFillerEvent → Prop
  | .turn turn => ∀ receivedTestcase, s.WantsParent config turn →
      turn.resp = some receivedTestcase →
      s.host.Opens turn.env (generateTestcasePathAndFilename receivedTestcase.id
        config.m_queueFillerTempDir) →
      turn.toNewParent.Complete receivedTestcase ∨
        s.host.StaleMark (generateTestcasePathAndFilename receivedTestcase.id
          config.m_queueFillerTempDir)
  | _ => True

variable {config : QueueFillerConfig} {turn : QueueFillerTurn} {s t : QueueFiller}

@[simp] theorem mutate_needsParents (children : Option (List NewTestcase)) :
    (s.mutate config children).m_mutatorNeedsParents = s.m_mutatorNeedsParents := by
  unfold QueueFiller.mutate
  split <;> rfl

@[simp] theorem configured_host : (s.configured turn).host = s.host := by
  unfold QueueFiller.configured
  split
  · rfl
  · split <;> rfl

@[simp] theorem configured_queue :
    (s.configured turn).m_pendingTestcaseQueue = s.m_pendingTestcaseQueue := by
  unfold QueueFiller.configured
  split
  · rfl
  · split <;> rfl

theorem queueOriginal_cases (config : QueueFillerConfig) (parent : NewParent)
    (receivedTestcase : GetTestcaseToMutateResponse) (s : QueueFiller) :
    (s.queueOriginal config parent receivedTestcase = none ∧
      ¬ parent.OriginalQueued receivedTestcase) ∨
    ∃ queue, s.queueOriginal config parent receivedTestcase =
        some { s with m_pendingTestcaseQueue := queue } ∧
      parent.OriginalQueued receivedTestcase := by
  unfold QueueFiller.queueOriginal NewParent.OriginalQueued
  cases receivedTestcase.alsorunwithoutmutation with
  | false => exact .inr ⟨_, rfl, by simp⟩
  | true =>
    cases parent.isQueued with
    | none => exact .inl ⟨rfl, by simp⟩
    | some isQueued =>
      by_cases hqueued : (isQueued || (parent.copies && parent.pushes)) = true
      · refine .inr ⟨_, if_pos hqueued, fun _ => ?_⟩
        cases isQueued with
        | true => exact .inl rfl
        | false => exact .inr ⟨rfl, by simpa using hqueued⟩
      · refine .inl ⟨if_neg hqueued, fun hcond => hqueued ?_⟩
        rcases hcond rfl with hexists | ⟨_, hcopies, hpushes⟩
        · rw [Option.some.inj hexists, Bool.true_or]
        · rw [hcopies, hpushes, Bool.and_self, Bool.or_true]

/-- What `getNewParent` does to the files, and when it returns the parent it has stored. -/
theorem getNewParent_cases {parent : NewParent} {parentID : Option FluffiTestcaseID}
    (h : getNewParent config parent s = .ok (t, parentID)) :
    t.m_mutatorNeedsParents = s.m_mutatorNeedsParents ∧
    ((parent.resp = none ∧ parentID = none ∧ t.host = s.host) ∨
    ∃ receivedTestcase stored, parent.resp = some receivedTestcase ∧ t.host = stored.host ∧
      storeTestcaseFileOnDisk s.host parent.env parent.ask receivedTestcase.id
        config.m_queueFillerTempDir receivedTestcase.testcasefirstchunk
        receivedTestcase.islastchunk = .ok stored ∧
      ((parentID = some receivedTestcase.id ∧
        stored.success = true ∧ parent.OriginalQueued receivedTestcase) ∨
      (parentID = none ∧
        ¬ (stored.success = true ∧ parent.OriginalQueued receivedTestcase)))) := by
  unfold getNewParent at h
  split at h
  next hresp =>
    obtain ⟨rfl, rfl⟩ := Prod.mk.inj (Except.ok.inj h)
    exact ⟨rfl, .inl ⟨hresp, rfl, rfl⟩⟩
  next receivedTestcase hresp =>
    obtain ⟨stored, hstored, hrest⟩ := map_eq_ok h
    cases hsuccess : stored.success with
    | false =>
      rw [hsuccess] at hrest
      obtain ⟨rfl, rfl⟩ := Prod.mk.inj hrest
      exact ⟨rfl, .inr ⟨_, stored, hresp, rfl, hstored, .inr ⟨rfl, by simp [hsuccess]⟩⟩⟩
    | true =>
      simp only [hsuccess, Bool.not_true, Bool.false_eq_true, if_false] at hrest
      rcases queueOriginal_cases config parent receivedTestcase { s with host := stored.host } with
        ⟨hqueue, hthrows⟩ | ⟨queue, hqueue, hqueued⟩
      · rw [hqueue] at hrest
        obtain ⟨rfl, rfl⟩ := Prod.mk.inj hrest
        exact ⟨rfl, .inr ⟨_, stored, hresp, rfl, hstored, .inr ⟨rfl, fun hboth => hthrows hboth.2⟩⟩⟩
      · rw [hqueue] at hrest
        obtain ⟨rfl, rfl⟩ := Prod.mk.inj hrest
        exact ⟨rfl, .inr ⟨_, stored, hresp, rfl, hstored, .inl ⟨rfl, hsuccess, hqueued⟩⟩⟩

/-- With the parent in hand, no file is left over that was not before. -/
theorem leftover_useParent {parentID : FluffiTestcaseID} {f : String}
    (hf : (s.useParent config turn parentID).host.Leftover f) :
    s.host.Leftover f ∧ (s.m_mutatorNeedsParents = true →
      f ≠ generateTestcasePathAndFilename parentID config.m_queueFillerTempDir) := by
  unfold QueueFiller.useParent at hf
  simp only [mutate_needsParents] at hf
  split at hf
  next hneeds =>
    obtain ⟨hname, hleft⟩ := leftover_removeOrMark hf
    exact ⟨((leftover_afterwards_iff _).mp hleft).1, fun _ => hname⟩
  next hneeds => exact ⟨((leftover_afterwards_iff _).mp hf).1, fun hneeds' => absurd hneeds' hneeds⟩

/-! ### Turns -/

/-- Where a turn ends: nothing was asked of the local manager, or the mutator needs no parent,
or `getNewParent` threw, or it returned a parent. -/
theorem loopBody_cases (h : s.loopBody config turn = .ok t) :
    (¬ s.WantsParent config turn ∧ (t = s.configured turn ∨
      ((s.configured turn).m_mutatorNeedsParents = false ∧
        t = (s.configured turn).useParent config turn ⟨⟨"", ""⟩, 0⟩))) ∨
    (s.WantsParent config turn ∧ ∃ s' parentID,
      getNewParent config turn.toNewParent (s.configured turn) = .ok (s', parentID) ∧
      t = match parentID with
        | none => s'
        | some parentID => s'.useParent config turn parentID) := by
  unfold QueueFiller.loopBody at h
  unfold QueueFiller.WantsParent
  cases hgot : (s.configured turn).m_gotConfigFromLM with
  | false =>
    simp only [hgot, Bool.not_false, if_true] at h
    exact .inl ⟨by simp, .inl (Except.ok.inj h).symm⟩
  | true =>
    simp only [hgot, Bool.not_true, Bool.false_eq_true, if_false, configured_queue] at h
    by_cases hfull : config.m_desiredQueueFillLevel < s.m_pendingTestcaseQueue.length
    · rw [if_pos hfull] at h
      exact .inl ⟨by simp [hfull], .inl (Except.ok.inj h).symm⟩
    · rw [if_neg hfull] at h
      cases hneeds : (s.configured turn).m_mutatorNeedsParents with
      | false =>
        rw [hneeds, if_neg (by decide)] at h
        exact .inl ⟨by simp, .inr ⟨rfl, (Except.ok.inj h).symm⟩⟩
      | true =>
        rw [hneeds, if_pos rfl] at h
        obtain ⟨⟨s', parentID⟩, hget, ht⟩ := map_eq_ok h
        refine .inr ⟨⟨rfl, not_lt.mp hfull, rfl⟩, s', parentID, hget, ?_⟩
        cases parentID <;> exact ht.symm

/-- A turn leaves the directory clean exactly if it takes care of the parent. -/
theorem loopBody_clean_iff (hclean : s.host.Clean config.m_queueFillerTempDir)
    (h : s.loopBody config turn = .ok t) :
    t.host.Clean config.m_queueFillerTempDir ↔ TakesCare config s (.turn turn) := by
  rw [Host.clean_iff] at hclean ⊢
  rcases loopBody_cases h with ⟨hwants, hend⟩ | ⟨hwants, s', parentID, hget, rfl⟩
  · refine iff_of_true (fun id hleft => hclean id ?_) fun _ hwants' => absurd hwants' hwants
    rcases hend with rfl | ⟨_, rfl⟩
    · simpa using hleft
    · simpa using (leftover_useParent hleft).1
  · obtain ⟨hneeds, ⟨hresp, rfl, hhost⟩ |
      ⟨receivedTestcase, stored, hresp, hhost, hstored, hend⟩⟩ := getNewParent_cases hget
    · refine iff_of_true (fun id hleft => hclean id ?_) fun _ _ hresp' => ?_
      · simpa [hhost] using hleft
      · rw [hresp] at hresp'
        cases hresp'
    · rw [configured_host] at hstored
      have hsuccess := store_success_eq hstored
      have hiff (f : String) := leftover_store_iff (f := f) hstored
      simp only [← hhost] at hiff
      rcases hend with ⟨rfl, hreturns⟩ | ⟨rfl, hthrows⟩
      · -- the file that the store left is the one that is removed or marked
        rw [hsuccess] at hreturns
        refine iff_of_true (fun id hleft => ?_) fun _ _ hresp' _ => .inl ?_
        · obtain ⟨hleft, hname⟩ := leftover_useParent hleft
          rw [hneeds, hwants.2.2] at hname
          rcases (hiff _).mp hleft with hbefore | ⟨hsame, _⟩
          · exact hclean id hbefore
          · exact hname rfl hsame
        · obtain rfl := Option.some.inj (hresp.symm.trans hresp')
          exact ⟨hreturns.1.2, hreturns.2⟩
      · -- nobody comes back to the file
        rw [hsuccess] at hthrows
        constructor
        · intro hafter _ _ hresp' hopens
          obtain rfl := Option.some.inj (hresp.symm.trans hresp')
          by_contra hbad
          rw [not_or] at hbad
          exact hafter receivedTestcase.id ((hiff _).mpr (.inr ⟨rfl, hopens, hbad.2⟩))
        · intro hcare id hleft
          rcases (hiff _).mp hleft with hbefore | ⟨_, hopens, hstale⟩
          · exact hclean id hbefore
          · rcases hcare receivedTestcase hwants hresp hopens with hcomplete | hmark
            · exact hthrows ⟨⟨hopens, hcomplete.1⟩, hcomplete.2⟩
            · exact hstale hmark

theorem next_clean_iff {event : QueueFillerEvent}
    (hclean : s.host.Clean config.m_queueFillerTempDir) (h : s.next config event = some t) :
    t.host.Clean config.m_queueFillerTempDir ↔ TakesCare config s event := by
  cases event with
  | turn turn =>
    refine loopBody_clean_iff hclean ?_
    cases hbody : s.loopBody config turn with
    | error abnormal =>
      rw [QueueFiller.next, hbody] at h
      cases h
    | ok t' =>
      rw [QueueFiller.next, hbody] at h
      rw [Option.some.inj h]
  | otherThread step =>
    obtain rfl := Option.some.inj h
    rw [Host.clean_iff] at hclean ⊢
    exact iff_of_true (fun id hleft => hclean id ((leftover_meanwhile_iff step).mp hleft).1) trivial
  | popPendingTCForProcessing =>
    obtain rfl := Option.some.inj h
    exact iff_of_true hclean trivial

/-- A run has no parent file left over at a loop head exactly if each of its turns takes care
of the parent whose file it opens. -/
theorem parentFiles_clean_iff {s₀ : QueueFiller} {tr : List (QueueFiller × QueueFillerEvent)}
    (hr : Run (QueueFiller.next config) s₀ tr s)
    (h₀ : s₀.host.Clean config.m_queueFillerTempDir) :
    (s.host.Clean config.m_queueFillerTempDir ∧
      ∀ p ∈ tr, p.1.host.Clean config.m_queueFillerTempDir) ↔
    ∀ p ∈ tr, TakesCare config p.1 p.2 :=
  hr.invariant_iff h₀ next_clean_iff

/-! ### A parent of two chunks -/

def parentDir : QueueFillerConfig := queueFillerConfig "testcaseFiles" 20 50

/-- Before the first turn. -/
def newQueueFiller : QueueFiller := ⟨noFiles ∅, false, true, 50, []⟩

/-- The parent is handed out, and no request for a further chunk is answered. -/
def firstTurn (firstChunk : Bytes) (islastchunk : Bool) : QueueFillerTurn where
  resp := some ⟨twoChunks, firstChunk, islastchunk, false⟩
  env := ⟨[], true⟩
  ask := noAnswer
  isQueued := some false
  copies := true
  pushes := true
  tryGetConfigFromLM := some true
  meanwhile := []
  children := some []
  removes := true

def parentFile : String :=
  generateTestcasePathAndFilename twoChunks parentDir.m_queueFillerTempDir

theorem newQueueFiller_clean : newQueueFiller.host.Clean parentDir.m_queueFillerTempDir := by
  rw [Host.clean_iff]
  exact fun id hleft => hleft.1 rfl

theorem parentFiles_clean_oneChunk : ∃ t,
    Run (QueueFiller.next parentDir) newQueueFiller
      [(newQueueFiller, .turn (firstTurn [1] true))] t ∧
    t.host.Clean parentDir.m_queueFillerTempDir := by
  obtain ⟨t, hstep⟩ : ∃ t, newQueueFiller.next parentDir (.turn (firstTurn [1] true)) = some t :=
    ⟨_, rfl⟩
  have hr := Run.single hstep
  refine ⟨t, hr, ((parentFiles_clean_iff hr newQueueFiller_clean).mpr ?_).1⟩
  intro p hp
  obtain rfl := List.mem_singleton.mp hp
  intro receivedTestcase _ hresp _
  obtain rfl := Option.some.inj hresp
  exact .inl ⟨by simp, by simp [NewParent.OriginalQueued]⟩

def fullChunk : Bytes := List.replicate chunkSizeInBytes 0

def afterLostChunk : QueueFiller :=
  { newQueueFiller with
    host := newQueueFiller.host.write parentFile fullChunk
    m_gotConfigFromLM := true }

/-- The first chunk stays in an unmarked file, and from then on every turn in which the parent
is handed out ends there. -/
theorem lost_chunk_leaves_parent :
    newQueueFiller.host.Clean parentDir.m_queueFillerTempDir ∧
    Run (QueueFiller.next parentDir) newQueueFiller
      [(newQueueFiller, .turn (firstTurn fullChunk false))] afterLostChunk ∧
    afterLostChunk.host.files parentFile = some fullChunk ∧
    ¬ afterLostChunk.host.Clean parentDir.m_queueFillerTempDir ∧
    ∀ (turn : QueueFillerTurn) (receivedTestcase : GetTestcaseToMutateResponse),
      turn.resp = some receivedTestcase → receivedTestcase.id = twoChunks →
      afterLostChunk.next parentDir (.turn turn) = some afterLostChunk := by
  have hfile : afterLostChunk.host.files parentFile = some fullChunk := Host.write_files ..
  have hunmarked : parentFile ∉ afterLostChunk.host.m_setOfFilesToDelete :=
    Finset.notMem_empty parentFile
  refine ⟨newQueueFiller_clean, Run.single rfl, hfile, fun hclean => ?_, ?_⟩
  · refine hunmarked (hclean.marked twoChunks ?_)
    rw [← parentFile, hfile]
    simp
  · rintro turn ⟨id, first, last, also⟩ hresp rfl
    have hmake : makeRoom afterLostChunk.host turn.env.turns parentFile = .ok none := by
      rw [makeRoom, hfile]
      simp [Host.isFileMarkedForDeletion, hunmarked]
    have hrefused : storeTestcaseFileOnDisk afterLostChunk.host turn.env turn.ask twoChunks
        parentDir.m_queueFillerTempDir first last = .ok ⟨false, afterLostChunk.host, []⟩ := by
      rw [storeTestcaseFileOnDisk, ← parentFile, hmake]
      rfl
    have hget : getNewParent parentDir turn.toNewParent afterLostChunk =
        .ok (afterLostChunk, none) := by
      rw [getNewParent, hresp]
      simp only
      rw [hrefused]
      rfl
    have hbody : afterLostChunk.loopBody parentDir turn =
        (getNewParent parentDir turn.toNewParent afterLostChunk).map fun
          | (s, none) => s
          | (s, some parentID) => s.useParent parentDir turn parentID := rfl
    rw [QueueFiller.next, hbody, hget]
    rfl

end Fluffi.Generator
