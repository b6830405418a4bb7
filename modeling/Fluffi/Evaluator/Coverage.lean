import Mathlib.Data.Finset.Dedup
import Fluffi.Systems.Run
import Fluffi.Shared.Evaluation
import Fluffi.Shared.Transfer

/-! The coverage evaluator. Each block of a test outcome is looked up in the cache of
known blocks and added to it at once; the outcome is kept when a block was new. The
cache is not touched again when the evaluation cannot be delivered. Proved: after a
clean exit with a new block, the same outcome is kept again exactly when its parent
is special, whatever the first evaluation was answered. -/

namespace Fluffi.Evaluator

open Shared Systems

structure TestOutcomeDescriptor where
  m_id : FluffiTestcaseID
  m_parentId : FluffiTestcaseID
  m_testResult : FluffiTestResult

def TestOutcomeDescriptor.blocks (tod : TestOutcomeDescriptor) : List FluffiBasicBlock :=
  tod.m_testResult.m_blocks

/-! ### Evaluating one outcome -/

def m_deltaNewBlocks : ℤ := 100
def m_deltaHang : ℤ := -10
def m_deltaAccessViolation : ℤ := -10
def m_deltaOtherException : ℤ := -10

def generateParentRatingDelta (exitType : ExitType) (hasNewBlocks isSpecial : Bool) : ℤ :=
  if isSpecial then 0
  else
    let parentRatingDelta := match exitType with
      | .CleanExit => 0
      | .Hang => m_deltaHang
      | .Exception_AccessViolation => m_deltaAccessViolation
      | .Exception_Other => m_deltaOtherException
      | .unknown => 0
    if hasNewBlocks then parentRatingDelta + m_deltaNewBlocks else parentRatingDelta

/-- The blocks as a `std::set` enumerates them. -/
def copyTestResultButStripDuplicateBlocks (originalTestResult : FluffiTestResult) :
    FluffiTestResult :=
  { originalTestResult with
    m_blocks := originalTestResult.m_blocks.dedup.mergeSort FluffiBasicBlock.le }

/-- Was the block in the cache, and the cache afterwards. -/
def isBlockInCacheAndAddItIfNot (m_blockCoverageCache : Finset FluffiBasicBlock)
    (theBlock : FluffiBasicBlock) : Bool × Finset FluffiBasicBlock :=
  if theBlock ∈ m_blockCoverageCache then (true, m_blockCoverageCache)
  else (false, insert theBlock m_blockCoverageCache)

/-- The loop over the blocks: `hasNewBlocks` and the cache afterwards. -/
def lookUpBlocks (hasNewBlocks : Bool) (m_blockCoverageCache : Finset FluffiBasicBlock) :
    List FluffiBasicBlock → Bool × Finset FluffiBasicBlock
  | [] => (hasNewBlocks, m_blockCoverageCache)
  | fbb :: blocks =>
    let (wasAlreadyInSet, cache) := isBlockInCacheAndAddItIfNot m_blockCoverageCache fbb
    lookUpBlocks (hasNewBlocks || !wasAlreadyInSet) cache blocks

/-- What `processTestOutcomeDescriptor` has done when it sends its request. -/
structure Evaluated where
  m_blockCoverageCache : Finset FluffiBasicBlock
  putTestEvaluationRequest : PutTestEvaluationRequest
  markedForDeletion : Option String

/-- `processTestOutcomeDescriptor` up to the request. -/
def processTestOutcomeDescriptor (m_testcaseDir : String) (disk : Disk) (leftover : Leftover)
    (m_blockCoverageCache : Finset FluffiBasicBlock) (tod : TestOutcomeDescriptor) :
    Except Abnormal Evaluated :=
  let (hasNewBlocks, cache) := lookUpBlocks false m_blockCoverageCache tod.blocks
  let testfile := generateTestcasePathAndFilename tod.m_id m_testcaseDir
  if !tod.m_parentId.isSpecial && tod.m_testResult.m_exitType = .CleanExit && !hasNewBlocks then
    .ok ⟨cache, .unset tod.m_id tod.m_parentId .Discard, some testfile⟩
  else
    (loadTestcaseChunkInMemory chunkSizeInBytes disk leftover.heap tod.m_id m_testcaseDir 0).map
      fun (data, assigned) =>
        let isLastChunk := assigned.getD leftover.isLastChunk
        ⟨cache,
          { id := tod.m_id
            parentid := tod.m_parentId
            eval := .Keep
            parentratingdelta := generateParentRatingDelta tod.m_testResult.m_exitType hasNewBlocks
              tod.m_parentId.isSpecial
            -- partial coverage is reported as none, so that the testcase is run again
            result := if tod.m_testResult.m_hasFullCoverage then
                copyTestResultButStripDuplicateBlocks tod.m_testResult
              else { tod.m_testResult with m_blocks := [], m_hasFullCoverage := false }
            testcasefirstchunk := data
            islastchunk := isLastChunk },
          if isLastChunk then some testfile else none⟩

/-- `CommInt::timeoutFileTransferMessage` -/
def timeoutFileTransferMessage : ℤ := 10 * (10 * 1000)

def updateTestcaseEvaluationSendTimeout (m_currentTestcaseEvaluationSendTimeout : ℤ)
    (wasLastTransferSuccessful : Bool) (eval : TestEvaluation) (exitType : ExitType) : ℤ :=
  if wasLastTransferSuccessful then
    if m_currentTestcaseEvaluationSendTimeout - 1000 > timeoutFileTransferMessage ∧
        eval = .Keep ∧ exitType = .CleanExit then
      m_currentTestcaseEvaluationSendTimeout - 1000
    else m_currentTestcaseEvaluationSendTimeout
  else m_currentTestcaseEvaluationSendTimeout + 5000

/-! ### The evaluator in operation -/

structure EvaluatorState where
  m_blockCoverageCache : Finset FluffiBasicBlock
  m_currentTestcaseEvaluationSendTimeout : ℤ

inductive EvaluatorEvent
  /-- `pullCoverageFromLM` with the blocks of the response, or without an answer. -/
  | pull (response : Option (Finset FluffiBasicBlock))
  /-- An outcome is processed; the answer is the success flag of the response, if
  there is one. -/
  | process (tod : TestOutcomeDescriptor) (disk : Disk) (leftover : Leftover) (answer : Option Bool)

namespace EvaluatorState

def init : EvaluatorState := ⟨∅, timeoutFileTransferMessage⟩

def next (m_testcaseDir : String) (s : EvaluatorState) : EvaluatorEvent → Option EvaluatorState
  | .pull none => some s
  | .pull (some blocks) => some { s with
      m_blockCoverageCache := s.m_blockCoverageCache ∪ blocks }
  | .process tod disk leftover answer =>
    (processTestOutcomeDescriptor m_testcaseDir disk leftover s.m_blockCoverageCache
      tod).toOption.map fun evaluated =>
        ⟨evaluated.m_blockCoverageCache,
          updateTestcaseEvaluationSendTimeout s.m_currentTestcaseEvaluationSendTimeout answer.isSome
            evaluated.putTestEvaluationRequest.eval tod.m_testResult.m_exitType⟩

end EvaluatorState

/-! ### One evaluation -/

/-- The outcome covers a block that is not in the cache. -/
def HasNewBlock (cache : Finset FluffiBasicBlock) (tod : TestOutcomeDescriptor) : Prop :=
  ∃ b ∈ tod.blocks, b ∉ cache

/-- A clean exit without a new block under an ordinary parent. -/
def Discards (cache : Finset FluffiBasicBlock) (tod : TestOutcomeDescriptor) : Prop :=
  tod.m_parentId.isSpecial = false ∧ tod.m_testResult.m_exitType = .CleanExit ∧
    ¬ HasNewBlock cache tod

/-- The outcome is reported as one to keep, and the testcase goes with it. -/
def SendsTestcase (m_testcaseDir : String) (disk : Disk) (leftover : Leftover)
    (cache : Finset FluffiBasicBlock) (tod : TestOutcomeDescriptor) : Prop :=
  ∃ evaluated assigned,
    processTestOutcomeDescriptor m_testcaseDir disk leftover cache tod = .ok evaluated ∧
    evaluated.putTestEvaluationRequest.eval = .Keep ∧
    loadTestcaseChunkInMemory chunkSizeInBytes disk leftover.heap tod.m_id m_testcaseDir 0 =
      .ok (evaluated.putTestEvaluationRequest.testcasefirstchunk, assigned)

variable {m_testcaseDir : String}

theorem isBlockInCacheAndAddItIfNot_eq (cache : Finset FluffiBasicBlock) (b : FluffiBasicBlock) :
    isBlockInCacheAndAddItIfNot cache b = (decide (b ∈ cache), insert b cache) := by
  by_cases hb : b ∈ cache
  · simp [isBlockInCacheAndAddItIfNot, hb]
  · simp [isBlockInCacheAndAddItIfNot, hb]

theorem lookUpBlocks_eq (hasNewBlocks : Bool) (cache : Finset FluffiBasicBlock)
    (blocks : List FluffiBasicBlock) :
    lookUpBlocks hasNewBlocks cache blocks =
      (hasNewBlocks || decide (∃ b ∈ blocks, b ∉ cache), cache ∪ blocks.toFinset) := by
  induction blocks generalizing hasNewBlocks cache with
  | nil => simp [lookUpBlocks]
  | cons b blocks ih =>
    -- a repeated block is new at its first occurrence only
    have hnew : (∃ c ∈ b :: blocks, c ∉ cache) ↔ b ∉ cache ∨ ∃ c ∈ blocks, c ∉ insert b cache := by
      constructor
      · rintro ⟨c, hc, hfresh⟩
        by_cases hcb : c = b
        · exact .inl (hcb ▸ hfresh)
        · have hmem := List.mem_of_ne_of_mem hcb hc
          exact .inr ⟨c, hmem, by simp [hcb, hfresh]⟩
      · rintro (hb | ⟨c, hc, hfresh⟩)
        · exact ⟨b, List.mem_cons_self, hb⟩
        · exact ⟨c, List.mem_cons_of_mem b hc, fun h => hfresh (Finset.mem_insert_of_mem h)⟩
    rw [lookUpBlocks, isBlockInCacheAndAddItIfNot_eq]
    show lookUpBlocks (hasNewBlocks || !decide (b ∈ cache)) (insert b cache) blocks = _
    rw [ih, decide_eq_decide.mpr hnew, Bool.decide_or, decide_not, Bool.or_assoc,
      List.toFinset_cons, Finset.insert_union, Finset.union_insert]

/-- After a clean exit without a new block under an ordinary parent the outcome is
discarded, otherwise it is kept and the testcase goes with it. Either way its blocks
are in the cache afterwards. -/
theorem process_cases (m_testcaseDir : String) (disk : Disk) (leftover : Leftover)
    (cache : Finset FluffiBasicBlock) (tod : TestOutcomeDescriptor) :
    ∃ evaluated,
      processTestOutcomeDescriptor m_testcaseDir disk leftover cache tod = .ok evaluated ∧
      evaluated.m_blockCoverageCache = cache ∪ tod.blocks.toFinset ∧
      ((Discards cache tod ∧ evaluated.putTestEvaluationRequest.eval = .Discard) ∨
        (¬ Discards cache tod ∧ evaluated.putTestEvaluationRequest.eval = .Keep ∧ ∃ assigned,
          loadTestcaseChunkInMemory chunkSizeInBytes disk leftover.heap tod.m_id m_testcaseDir 0 =
            .ok (evaluated.putTestEvaluationRequest.testcasefirstchunk, assigned))) := by
  obtain ⟨data, assigned, hload, -⟩ :=
    load_assigned chunkSizeInBytes_lt disk leftover.heap tod.m_id m_testcaseDir 0
  have hcond : (!tod.m_parentId.isSpecial && decide (tod.m_testResult.m_exitType = .CleanExit) &&
      !(false || decide (∃ b ∈ tod.blocks, b ∉ cache))) = true ↔ Discards cache tod := by
    simp [Discards, HasNewBlock, and_assoc]
  rw [processTestOutcomeDescriptor, lookUpBlocks_eq, hload]
  dsimp only
  by_cases hdiscard : Discards cache tod
  · rw [if_pos (hcond.mpr hdiscard)]
    exact ⟨_, rfl, rfl, .inl ⟨hdiscard, rfl⟩⟩
  · rw [if_neg (mt hcond.mp hdiscard)]
    exact ⟨_, rfl, rfl, .inr ⟨hdiscard, rfl, assigned, rfl⟩⟩

theorem sendsTestcase_iff (m_testcaseDir : String) (disk : Disk) (leftover : Leftover)
    (cache : Finset FluffiBasicBlock) (tod : TestOutcomeDescriptor) :
    SendsTestcase m_testcaseDir disk leftover cache tod ↔ ¬ Discards cache tod := by
  obtain ⟨evaluated, hok, -, ⟨hdiscard, heval⟩ | ⟨hdiscard, heval, assigned, hload⟩⟩ :=
    process_cases m_testcaseDir disk leftover cache tod
  · refine iff_of_false ?_ (not_not_intro hdiscard)
    rintro ⟨evaluated', assigned, hok', hkeep, -⟩
    obtain rfl := Except.ok.inj (hok.symm.trans hok')
    rw [heval] at hkeep
    cases hkeep
  · exact iff_of_true ⟨evaluated, assigned, hok, heval, hload⟩ hdiscard

/-! ### The cache over a run -/

/-- What an event adds to the cache. -/
def EvaluatorEvent.learned : EvaluatorEvent → Finset FluffiBasicBlock
  | .pull response => response.getD ∅
  | .process tod _ _ _ => tod.blocks.toFinset

theorem next_cache {s t : EvaluatorState} {e : EvaluatorEvent}
    (h : EvaluatorState.next m_testcaseDir s e = some t) :
    t.m_blockCoverageCache = s.m_blockCoverageCache ∪ e.learned := by
  cases e with
  | pull response =>
    cases response with
    | none =>
      obtain rfl : s = t := Option.some.inj h
      exact (Finset.union_empty _).symm
    | some blocks =>
      rw [← Option.some.inj h]
      rfl
  | process tod disk leftover answer =>
    obtain ⟨evaluated, hok, hcache, -⟩ :=
      process_cases m_testcaseDir disk leftover s.m_blockCoverageCache tod
    rw [EvaluatorState.next, hok] at h
    rw [← Option.some.inj h]
    exact hcache

/-- The cache holds what it held before and what the events added, and nothing is
ever taken out. -/
theorem mem_run_cache {s u : EvaluatorState} {tr : List (EvaluatorState × EvaluatorEvent)}
    (hr : Run (EvaluatorState.next m_testcaseDir) s tr u) (b : FluffiBasicBlock) :
    b ∈ u.m_blockCoverageCache ↔ b ∈ s.m_blockCoverageCache ∨ ∃ p ∈ tr, b ∈ p.2.learned := by
  induction hr with
  | nil => simp
  | snoc _ hstep ih =>
    rw [next_cache hstep, Finset.mem_union, ih, or_assoc]
    simp [or_and_right, exists_or]

/-- The local manager accepted a testcase that covers the block, or it delivered the
block in a pull. -/
def KnownToLM (m_testcaseDir : String) (b : FluffiBasicBlock)
    (p : EvaluatorState × EvaluatorEvent) : Prop :=
  match p.2 with
  | .pull response => b ∈ response.getD ∅
  | .process tod disk leftover answer => answer = some true ∧ b ∈ tod.blocks ∧
      SendsTestcase m_testcaseDir disk leftover p.1.m_blockCoverageCache tod

/-- If the step evaluates an outcome with a new block, then it is answered with success. -/
def NewBlockAnswered (p : EvaluatorState × EvaluatorEvent) : Prop :=
  match p.2 with
  | .pull _ => True
  | .process tod _ _ answer => HasNewBlock p.1.m_blockCoverageCache tod → answer = some true

theorem KnownToLM.learned {b : FluffiBasicBlock} {p : EvaluatorState × EvaluatorEvent}
    (h : KnownToLM m_testcaseDir b p) : b ∈ p.2.learned := by
  obtain ⟨s, e⟩ := p
  cases e with
  | pull response => exact h
  | process tod disk leftover answer => exact List.mem_toFinset.mpr h.2.1

/-- What a step adds beyond the cache is known to the local manager if the step is
answered. -/
theorem NewBlockAnswered.known {b : FluffiBasicBlock} {s : EvaluatorState} {e : EvaluatorEvent}
    (h : NewBlockAnswered (s, e)) (hb : b ∈ e.learned) (hfresh : b ∉ s.m_blockCoverageCache) :
    KnownToLM m_testcaseDir b (s, e) := by
  cases e with
  | pull response => exact hb
  | process tod disk leftover answer =>
    have hmem : b ∈ tod.blocks := List.mem_toFinset.mp hb
    have hnew : HasNewBlock s.m_blockCoverageCache tod := ⟨b, hmem, hfresh⟩
    have hsend := (sendsTestcase_iff m_testcaseDir disk leftover s.m_blockCoverageCache tod).mpr
      fun hdiscard => hdiscard.2.2 hnew
    exact ⟨h hnew, hmem, hsend⟩

theorem cache_known {u : EvaluatorState} {tr : List (EvaluatorState × EvaluatorEvent)}
    (hr : Run (EvaluatorState.next m_testcaseDir) .init tr u) (h : ∀ p ∈ tr, NewBlockAnswered p) :
    ∀ b ∈ u.m_blockCoverageCache, ∃ p ∈ tr, KnownToLM m_testcaseDir b p := by
  refine hr.history (G := fun s e => NewBlockAnswered (s, e))
    (I := fun tr u => ∀ b ∈ u.m_blockCoverageCache, ∃ p ∈ tr, KnownToLM m_testcaseDir b p)
    h (fun b hb => absurd hb (Finset.notMem_empty b)) ?_
  intro tr s e t hpast hanswered hstep b hb
  by_cases hold : b ∈ s.m_blockCoverageCache
  · obtain ⟨p, hp, hknown⟩ := hpast b hold
    exact ⟨p, List.mem_append_left _ hp, hknown⟩
  · rw [next_cache hstep, Finset.mem_union] at hb
    have hlearned := hb.resolve_left hold
    exact ⟨(s, e), by simp, hanswered.known hlearned hold⟩

theorem newBlockAnswered_of_known {pre : List (EvaluatorState × EvaluatorEvent)}
    {s t : EvaluatorState} {e : EvaluatorEvent}
    (hr : Run (EvaluatorState.next m_testcaseDir) .init pre s)
    (hstep : EvaluatorState.next m_testcaseDir s e = some t)
    (h : ∀ b ∈ t.m_blockCoverageCache, ∃ p ∈ pre ++ [(s, e)], KnownToLM m_testcaseDir b p) :
    NewBlockAnswered (s, e) := by
  cases e with
  | pull response => trivial
  | process tod disk leftover answer =>
    rintro ⟨b, hb, hfresh⟩
    have hcached : b ∈ t.m_blockCoverageCache := by
      rw [next_cache hstep]
      exact Finset.mem_union_right _ (List.mem_toFinset.mpr hb)
    obtain ⟨p, hp, hknown⟩ := h b hcached
    rcases List.mem_append.mp hp with hp | hp
    · -- what was known before would have been in the cache
      exact absurd ((mem_run_cache hr b).mpr (.inr ⟨p, hp, hknown.learned⟩)) hfresh
    · obtain rfl := List.mem_singleton.mp hp
      exact hknown.1

/-- First, an outcome with a new block after a clean exit whose evaluation is not
answered with success: when it is processed again, the testcase is sent again exactly
if the parent is special. Second, over a run: every block cached in a state it reaches
is known to the local manager exactly if every evaluation with a new block was
answered with success. -/
theorem new_coverage_iff (m_testcaseDir : String) :
    (∀ (s t u : EvaluatorState) (tod : TestOutcomeDescriptor) (disk : Disk) (leftover : Leftover)
        (answer : Option Bool) (post : List (EvaluatorState × EvaluatorEvent)),
      tod.m_testResult.m_exitType = .CleanExit → HasNewBlock s.m_blockCoverageCache tod →
      answer ≠ some true →
      EvaluatorState.next m_testcaseDir s (.process tod disk leftover answer) = some t →
      Run (EvaluatorState.next m_testcaseDir) t post u →
      ∀ diskThen leftoverThen,
        (SendsTestcase m_testcaseDir diskThen leftoverThen u.m_blockCoverageCache tod ↔
          tod.m_parentId.isSpecial = true)) ∧
    ∀ (tr : List (EvaluatorState × EvaluatorEvent)) (u : EvaluatorState),
      Run (EvaluatorState.next m_testcaseDir) .init tr u →
      ((∀ pre post v, tr = pre ++ post → Run (EvaluatorState.next m_testcaseDir) .init pre v →
        ∀ b ∈ v.m_blockCoverageCache, ∃ p ∈ pre, KnownToLM m_testcaseDir b p) ↔
      ∀ p ∈ tr, NewBlockAnswered p) := by
  constructor
  · intro s t u tod disk leftover answer post hclean _ _ hstep hr diskThen leftoverThen
    have hold : ¬ HasNewBlock u.m_blockCoverageCache tod := by
      rintro ⟨b, hb, hfresh⟩
      apply hfresh
      rw [mem_run_cache hr, next_cache hstep]
      exact .inl (Finset.mem_union_right _ (List.mem_toFinset.mpr hb))
    rw [sendsTestcase_iff]
    simp [Discards, hclean, hold]
  · intro tr u hr
    constructor
    · intro hknown p hp
      obtain ⟨pre, post, rfl⟩ := List.append_of_mem hp
      obtain ⟨s, e⟩ := p
      obtain ⟨hpre, t, hstep, -⟩ := hr.middle
      have hcut : pre ++ (s, e) :: post = (pre ++ [(s, e)]) ++ post := by simp
      exact newBlockAnswered_of_known hpre hstep (hknown _ _ t hcut (.snoc hpre hstep))
    · rintro hanswered pre post v rfl hpre
      exact cache_known hpre fun p hp => hanswered p (List.mem_append_left _ hp)

/-- A clean exit with one new block under an ordinary parent. -/
def firstVisit : TestOutcomeDescriptor where
  m_id := ⟨⟨"localhost:7001", "generator"⟩, 1⟩
  m_parentId := ⟨⟨"localhost:7001", "generator"⟩, 0⟩
  m_testResult := ⟨.CleanExit, [⟨0, 4096⟩], "", true⟩

/-- The first visit is not answered. The resent testcase is discarded, and its block
stays in the cache without the local manager knowing it. -/
theorem unanswered_coverage_lost :
    let disk : Disk := fun _ => some (.healthy [65])
    let leftover : Leftover := ⟨false, fun _ => 0⟩
    let visit : EvaluatorEvent := .process firstVisit disk leftover none
    HasNewBlock EvaluatorState.init.m_blockCoverageCache firstVisit ∧
    ∃ t, EvaluatorState.next "testcaseFiles" .init visit = some t ∧
      ¬ SendsTestcase "testcaseFiles" disk leftover t.m_blockCoverageCache firstVisit ∧
      ⟨0, 4096⟩ ∈ t.m_blockCoverageCache ∧
      ∀ p ∈ [(EvaluatorState.init, visit)], ¬ KnownToLM "testcaseFiles" ⟨0, 4096⟩ p := by
  refine ⟨⟨⟨0, 4096⟩, by decide, by decide⟩, _, rfl, ?_, by decide, ?_⟩
  · rintro ⟨evaluated, assigned, hok, hkeep, -⟩
    rw [← Except.ok.inj hok] at hkeep
    exact absurd hkeep (by decide)
  · intro p hp hknown
    obtain rfl := List.mem_singleton.mp hp
    exact absurd hknown.1 (by decide)

end Fluffi.Evaluator
