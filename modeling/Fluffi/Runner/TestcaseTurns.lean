import Fluffi.Runner.TestcaseDelivery

/-! The turns of a runner's loop. No testcase file is left over at a loop head exactly if each turn
takes care of the file that it opens. -/

namespace Fluffi.Runner

open Shared Systems
open Evaluator (TestOutcomeDescriptor)

/-! ### Turns -/

/-- The turn asks a generator for a testcase. -/
def TRMainWorker.Fetches (turn : RunnerTurn) (s : TRMainWorker) : Prop :=
  (s.m_gotConfigFromLM = true ∨ turn.tryGetConfigFromLM = true) ∧
    turn.generatorHAP ≠ "" ∧ turn.evaluatorHAP ≠ ""

/-- The requests for the remaining chunks go to where the ID of the testcase says. -/
def RunnerTurn.ask (C : ℕ) (turn : RunnerTurn) (receivedTestcase : GetTestcaseResponse) :
    ℕ → Except Abnormal (Option GetTestCaseChunkResponse) :=
  turn.net.ask C receivedTestcase.id.m_serviceDescriptor.m_serviceHostAndPort receivedTestcase.id

/-- The testcase is received as a whole, and there is an internal error, a mark of another
thread or a delivery that hands the file over. -/
def RunnerTurn.Marks (C : ℕ) (m_testcaseDir : String) (turn : RunnerTurn)
    (receivedTestcase : GetTestcaseResponse) : Prop :=
  (receivedTestcase.islastchunk = false → Answers (turn.ask C receivedTestcase) 1) ∧
    (isInternalError turn.testResult = true ∨
      .markFileForDelete (generateTestcasePathAndFilename receivedTestcase.id m_testcaseDir) ∈
        turn.meanwhile ∨
      ∀ content, Received (turn.ask C receivedTestcase) receivedTestcase.testcasefirstchunk
        receivedTestcase.islastchunk content → turn.push.HandsOver C receivedTestcase.id content)

/-- A turn that opens a file for a testcase marks it, unless there was a mark waiting for it. -/
def TakesCare (C : ℕ) (m_testcaseDir : String) (s : TRMainWorker) : RunnerEvent → Prop
  | .turn turn => ∀ receivedTestcase, s.Fetches turn → turn.resp = some receivedTestcase →
      receivedTestcase.success = true →
      s.host.Opens turn.env
        (generateTestcasePathAndFilename receivedTestcase.id m_testcaseDir) →
      turn.Marks C m_testcaseDir receivedTestcase ∨
        s.host.StaleMark (generateTestcasePathAndFilename receivedTestcase.id m_testcaseDir)
  | _ => True

section Turns

variable {C : ℕ} {m_testcaseDir : String} {turn : RunnerTurn} {s t : TRMainWorker}

/-- A turn without a testcase, a store that fails, or a testcase that is processed. -/
theorem loopBody_cases (h : s.loopBody C m_testcaseDir turn = .ok t) :
    (t.host = s.host ∧ ∀ receivedTestcase, s.Fetches turn → turn.resp = some receivedTestcase →
      ¬ receivedTestcase.success = true) ∨
    ∃ receivedTestcase stored, s.Fetches turn ∧ turn.resp = some receivedTestcase ∧
      receivedTestcase.success = true ∧
      storeTestcaseFileOnDisk s.host turn.env (turn.ask C receivedTestcase) receivedTestcase.id
        m_testcaseDir receivedTestcase.testcasefirstchunk receivedTestcase.islastchunk =
          .ok stored ∧
      ((stored.success = false ∧ t.host = stored.host) ∨
      (stored.success = true ∧ TRMainWorker.processTestcase C m_testcaseDir turn receivedTestcase
        { s with host := stored.host, m_gotConfigFromLM := true } = .ok t)) := by
  unfold TRMainWorker.loopBody at h
  split at h
  next hconfig =>
    refine .inl ⟨by rw [← Except.ok.inj h], fun _ hfetches => ?_⟩
    simp only [Bool.and_eq_true, Bool.not_eq_true'] at hconfig
    rcases hfetches.1 with hgot | htry
    · rw [hconfig.1] at hgot
      cases hgot
    · rw [hconfig.2] at htry
      cases htry
  next hconfig =>
    split at h
    next hpartner =>
      refine .inl ⟨by rw [← Except.ok.inj h], fun _ hfetches => ?_⟩
      simp only [Bool.or_eq_true, decide_eq_true_eq] at hpartner
      exact absurd hpartner (not_or.mpr hfetches.2)
    next hpartner =>
      have hfetches : s.Fetches turn := by
        refine ⟨?_, by simpa using hpartner⟩
        by_contra hno
        rw [not_or, Bool.not_eq_true, Bool.not_eq_true] at hno
        simp [hno] at hconfig
      obtain ⟨fetched, hfetched, hrest⟩ := bind_eq_ok h
      unfold getTestcaseFromGenerator at hfetched
      cases hresp : turn.resp with
      | none =>
        rw [hresp] at hfetched
        obtain rfl := Except.ok.inj hfetched
        exact .inl ⟨by rw [← Except.ok.inj hrest], by simp⟩
      | some receivedTestcase =>
        rw [hresp] at hfetched hrest
        cases hs : receivedTestcase.success with
        | false =>
          simp only [hs, Bool.not_false, if_true] at hfetched
          obtain rfl := Except.ok.inj hfetched
          exact .inl ⟨by rw [← Except.ok.inj hrest], by simp [hs]⟩
        | true =>
          simp only [hs, Bool.not_true, Bool.false_eq_true, if_false] at hfetched
          obtain ⟨stored, hstored, rfl⟩ := map_eq_ok hfetched
          refine .inr ⟨receivedTestcase, stored, hfetches, rfl, hs, hstored, ?_⟩
          cases hsuccess : stored.success with
          | false =>
            simp only [hsuccess, Bool.not_false, if_true] at hrest
            exact .inl ⟨rfl, by rw [← Except.ok.inj hrest]⟩
          | true =>
            simp only [hsuccess, Bool.not_true, Bool.false_eq_true, if_false] at hrest
            exact .inr ⟨rfl, hrest⟩

/-- Of a testcase that is processed, the file alone can be left over, and it is unless it is
marked or handed over. -/
theorem leftover_process_iff {receivedTestcase : GetTestcaseResponse} {content : Bytes}
    (hfile : s.host.files (generateTestcasePathAndFilename receivedTestcase.id m_testcaseDir) =
      some content)
    (h : s.processTestcase C m_testcaseDir turn receivedTestcase = .ok t) :
    (∀ f, t.host.Leftover f → s.host.Leftover f) ∧
    (t.host.Leftover (generateTestcasePathAndFilename receivedTestcase.id m_testcaseDir) ↔
      s.host.Leftover (generateTestcasePathAndFilename receivedTestcase.id m_testcaseDir) ∧
      ¬ (isInternalError turn.testResult = true ∨
        .markFileForDelete (generateTestcasePathAndFilename receivedTestcase.id m_testcaseDir) ∈
          turn.meanwhile ∨
        turn.push.HandsOver C receivedTestcase.id content)) := by
  unfold TRMainWorker.processTestcase at h
  simp only at h
  have hmeanwhile (f : String) := leftover_afterwards_iff (h := s.host) (f := f) turn.meanwhile
  cases hinternal : isInternalError turn.testResult with
  | true =>
    rw [hinternal, if_pos rfl] at h
    obtain rfl := Except.ok.inj h
    simp only [leftover_markFileForDelete_iff, hmeanwhile]
    exact ⟨fun f hf => hf.1.1, by simp⟩
  | false =>
    rw [hinternal, if_neg (by decide)] at h
    obtain ⟨⟨success, host⟩, hpush, ht⟩ := map_eq_ok h
    have hkept (f : String) (hf : t.host.Leftover f) :
        (s.host.afterwards turn.meanwhile).Leftover f := by
      refine leftover_push hpush ?_
      cases success with
      | true => rwa [← ht] at hf
      | false =>
        rw [← ht] at hf
        exact (leftover_markFileForDelete_iff.mp hf).1
    refine ⟨fun f hf => ((hmeanwhile f).mp (hkept f hf)).1, ?_⟩
    by_cases hbefore : (s.host.afterwards turn.meanwhile).Leftover
        (generateTestcasePathAndFilename receivedTestcase.id m_testcaseDir)
    · -- the file is as it was stored when it is delivered
      have hthere := afterwards_files turn.meanwhile hbefore
      rw [hfile] at hthere
      have hiff := leftover_push_iff hthere hbefore.2 hpush
      obtain ⟨hfree, hmark⟩ := (hmeanwhile _).mp hbefore
      simp only [hfree, true_and, Bool.false_eq_true, hmark, false_or]
      rw [← hiff]
      cases success with
      | true => simp [← ht]
      | false => simp [← ht, leftover_markFileForDelete_iff]
    · refine iff_of_false (fun hf => hbefore (hkept _ hf)) fun hcond => hbefore ?_
      rw [not_or, not_or] at hcond
      exact (hmeanwhile _).mpr ⟨hcond.1, hcond.2.2.1⟩

/-- What a store that succeeds has written is the only content that was received. -/
theorem received_iff_of_store {receivedTestcase : GetTestcaseResponse} {content : Bytes}
    {stored : Stored} (hstored : storeTestcaseFileOnDisk s.host turn.env
      (turn.ask C receivedTestcase) receivedTestcase.id m_testcaseDir
      receivedTestcase.testcasefirstchunk receivedTestcase.islastchunk = .ok stored)
    (hwhole : stored.success = true)
    (hfile : stored.host.files (generateTestcasePathAndFilename receivedTestcase.id m_testcaseDir) =
      some content) (content' : Bytes) :
    Received (turn.ask C receivedTestcase) receivedTestcase.testcasefirstchunk
      receivedTestcase.islastchunk content' ↔ content' = content := by
  have hopens := ((store_success_eq hstored).mp hwhole).1
  have hwritten : (∃ stored, storeTestcaseFileOnDisk s.host turn.env
      (turn.ask C receivedTestcase) receivedTestcase.id m_testcaseDir
      receivedTestcase.testcasefirstchunk receivedTestcase.islastchunk = .ok stored ∧
      stored.success = true ∧
      stored.host.files (generateTestcasePathAndFilename receivedTestcase.id m_testcaseDir) =
        some content') ↔ _ := store_received _ _ _
  constructor
  · intro hgot
    obtain ⟨stored', hstored', _, hfile'⟩ := hwritten.mpr ⟨hopens.1, hopens.2, hgot⟩
    rw [hstored] at hstored'
    rw [← Except.ok.inj hstored', hfile] at hfile'
    exact (Option.some.inj hfile').symm
  · rintro rfl
    exact (hwritten.mp ⟨stored, hstored, hwhole, hfile⟩).2.2

/-- A turn leaves the directory clean exactly if it takes care of the testcase. -/
theorem loopBody_clean_iff (hclean : s.host.Clean m_testcaseDir)
    (h : s.loopBody C m_testcaseDir turn = .ok t) :
    t.host.Clean m_testcaseDir ↔ TakesCare C m_testcaseDir s (.turn turn) := by
  rw [Host.clean_iff] at hclean ⊢
  rcases loopBody_cases h with ⟨hhost, hnothing⟩ |
    ⟨receivedTestcase, stored, hfetches, hresp, hreceived, hstored, hend⟩
  · rw [hhost]
    exact iff_of_true hclean fun r hfetches hresp hs => absurd hs (hnothing r hfetches hresp)
  have hsuccess := store_success_eq hstored
  have hiff (f : String) := leftover_store_iff (f := f) hstored
  have hthis : TakesCare C m_testcaseDir s (.turn turn) ↔
      (s.host.Opens turn.env (generateTestcasePathAndFilename receivedTestcase.id m_testcaseDir) →
        turn.Marks C m_testcaseDir receivedTestcase ∨ s.host.StaleMark
          (generateTestcasePathAndFilename receivedTestcase.id m_testcaseDir)) := by
    refine ⟨fun hcare => hcare receivedTestcase hfetches hresp hreceived, ?_⟩
    intro hcare r _ hresp' _
    obtain rfl := Option.some.inj (hresp.symm.trans hresp')
    exact hcare
  rw [hthis]
  rcases hend with ⟨hfailed, hhost⟩ | ⟨hwhole, hprocess⟩
  · -- the part that was stored is not looked at again
    have hlost : s.host.Opens turn.env
          (generateTestcasePathAndFilename receivedTestcase.id m_testcaseDir) →
        ¬ turn.Marks C m_testcaseDir receivedTestcase := by
      intro hopens hmarks
      rw [hsuccess.mpr ⟨hopens, hmarks.1⟩] at hfailed
      cases hfailed
    rw [hhost]
    constructor
    · intro hafter hopens
      by_contra hbad
      rw [not_or] at hbad
      exact hafter receivedTestcase.id ((hiff _).mpr (.inr ⟨rfl, hopens, hbad.2⟩))
    · intro hcare id hleft
      rcases (hiff _).mp hleft with hbefore | ⟨_, hopens, hstale⟩
      · exact hclean id hbefore
      · exact (hcare hopens).elim (hlost hopens) hstale
  · obtain ⟨hopens, hanswers⟩ := hsuccess.mp hwhole
    obtain ⟨content, hfile⟩ := store_written hstored hwhole
    have hcontent := received_iff_of_store hstored hwhole hfile
    have hmarks : turn.Marks C m_testcaseDir receivedTestcase ↔
        (isInternalError turn.testResult = true ∨
          .markFileForDelete (generateTestcasePathAndFilename receivedTestcase.id m_testcaseDir) ∈
            turn.meanwhile ∨
          turn.push.HandsOver C receivedTestcase.id content) := by
      simp only [RunnerTurn.Marks, hcontent, forall_eq, and_iff_right hanswers]
    obtain ⟨hkept, hpath⟩ := leftover_process_iff (s := { s with
      host := stored.host, m_gotConfigFromLM := true }) hfile hprocess
    rw [← hmarks] at hpath
    constructor
    · intro hafter _
      by_contra hbad
      rw [not_or] at hbad
      exact hafter receivedTestcase.id
        (hpath.mpr ⟨(hiff _).mpr (.inr ⟨rfl, hopens, hbad.2⟩), hbad.1⟩)
    · intro hcare id hleft
      rcases (hiff _).mp (hkept _ hleft) with hbefore | ⟨hsame, _, hstale⟩
      · exact hclean id hbefore
      · rw [hsame] at hleft
        exact (hcare hopens).elim (hpath.mp hleft).2 hstale

theorem next_clean_iff {event : RunnerEvent} (hclean : s.host.Clean m_testcaseDir)
    (h : s.next C m_testcaseDir event = some t) :
    t.host.Clean m_testcaseDir ↔ TakesCare C m_testcaseDir s event := by
  cases event with
  | turn turn =>
    refine loopBody_clean_iff hclean ?_
    cases hbody : s.loopBody C m_testcaseDir turn with
    | error abnormal =>
      rw [TRMainWorker.next, hbody] at h
      cases h
    | ok t' =>
      rw [TRMainWorker.next, hbody] at h
      rw [Option.some.inj h]
  | otherThread step =>
    obtain rfl := Option.some.inj h
    rw [Host.clean_iff] at hclean ⊢
    exact iff_of_true (fun id hleft => hclean id ((leftover_meanwhile_iff step).mp hleft).1) trivial

/-- A store is refused where an unmarked file is, and the turn ends. -/
theorem refused_turn {receivedTestcase : GetTestcaseResponse} {content : Bytes}
    (hresp : turn.resp = some receivedTestcase) (hconfig : s.m_gotConfigFromLM = true)
    (hfile : s.host.files (generateTestcasePathAndFilename receivedTestcase.id m_testcaseDir) =
      some content)
    (hunmarked : generateTestcasePathAndFilename receivedTestcase.id m_testcaseDir ∉
      s.host.m_setOfFilesToDelete) :
    s.next C m_testcaseDir (.turn turn) = some s := by
  have hmake : makeRoom s.host turn.env.turns
      (generateTestcasePathAndFilename receivedTestcase.id m_testcaseDir) = .ok none := by
    rw [makeRoom, hfile]
    simp [Host.isFileMarkedForDeletion, hunmarked]
  have hfetched : getTestcaseFromGenerator C turn.net s.host turn.env m_testcaseDir turn.resp =
      .ok ⟨false, s.host, []⟩ := by
    rw [hresp, getTestcaseFromGenerator]
    cases hs : receivedTestcase.success with
    | false => rfl
    | true =>
      simp only [Bool.not_true, Bool.false_eq_true, if_false]
      rw [storeTestcaseFileOnDisk, hmake]
      rfl
  have hbody : s.loopBody C m_testcaseDir turn = .ok s := by
    obtain ⟨host, config, number⟩ := s
    obtain rfl : config = true := hconfig
    rw [TRMainWorker.loopBody, if_neg (by simp)]
    simp only
    rw [hfetched]
    split <;> rfl
  rw [TRMainWorker.next, hbody]
  rfl

/-- A run has no testcase file left over at a loop head exactly if each of its turns takes care
of the file it opens. -/
theorem testcaseFiles_clean_iff {s₀ : TRMainWorker} {tr : List (TRMainWorker × RunnerEvent)}
    (hr : Run (TRMainWorker.next C m_testcaseDir) s₀ tr s) (h₀ : s₀.host.Clean m_testcaseDir) :
    (s.host.Clean m_testcaseDir ∧ ∀ p ∈ tr, p.1.host.Clean m_testcaseDir) ↔
      ∀ p ∈ tr, TakesCare C m_testcaseDir p.1 p.2 :=
  hr.invariant_iff h₀ next_clean_iff

end Turns

/-! ### A testcase from `tg:1` -/

def sampleTestcase : FluffiTestcaseID := ⟨sampleOwn, 7⟩

def runFile : String := generateTestcasePathAndFilename sampleTestcase "run"

def newRunner : TRMainWorker := ⟨noFiles ∅, false, 0⟩

def cleanExit : FluffiTestResult := ⟨.CleanExit, [], "", false⟩

/-- The testcase is fetched and executed, and each message of its delivery arrives. -/
def sampleTurn (content : Bytes) (islastchunk : Bool) (evaluator : EvaluatorTurn) :
    RunnerTurn where
  tryGetConfigFromLM := true
  generatorHAP := "tg:1"
  evaluatorHAP := "te:1"
  resp := some ⟨sampleTestcase, sampleParent, chunk chunkSizeInBytes content 0, islastchunk, false,
    true⟩
  net := sampleNetwork content
  env := ⟨[], true⟩
  meanwhile := []
  testResult := cleanExit
  push := ⟨evaluator, fun _ => some content.length, fun _ => ⟨false, fun _ => 0⟩, fun _ => true,
    fun _ => true⟩

theorem newRunner_clean : newRunner.host.Clean "run" := by
  rw [Host.clean_iff]
  exact fun id hleft => hleft.1 rfl

def newEvaluator : EvaluatorTurn := ⟨noFiles ∅, "eval", ⟨[], true⟩, []⟩

theorem testcaseFiles_clean_oneChunk : ∃ t,
    Run (TRMainWorker.next chunkSizeInBytes "run") newRunner
      [(newRunner, .turn (sampleTurn [1, 2, 3] true newEvaluator))] t ∧
    t.host.Clean "run" := by
  obtain ⟨t, hstep⟩ : ∃ t, newRunner.next chunkSizeInBytes "run"
      (.turn (sampleTurn [1, 2, 3] true newEvaluator)) = some t := ⟨_, rfl⟩
  have hr := Run.single hstep
  refine ⟨t, hr, ((testcaseFiles_clean_iff hr newRunner_clean).mpr ?_).1⟩
  intro p hp
  obtain rfl := List.mem_singleton.mp hp
  intro receivedTestcase _ hresp _ _
  obtain rfl := Option.some.inj hresp
  exact .inl ⟨by simp, .inr (.inr fun content _ => .inr (.inr (.inl rfl)))⟩

/-- The evaluator has the testcase on its disk and in its queue. -/
def knowingEvaluator : EvaluatorTurn :=
  ⟨⟨fun _ => some [], ∅⟩, "eval", ⟨[], true⟩, [⟨sampleTestcase, sampleParent, cleanExit⟩]⟩

/-- One byte more than a chunk. -/
def longContent : Bytes := List.replicate (chunkSizeInBytes + 1) 0

theorem longContent_chunks : chunkCount chunkSizeInBytes longContent.length = 2 := by
  rw [longContent, List.length_replicate]
  decide

def afterDelivery : TRMainWorker := ⟨(noFiles ∅).write runFile longContent, true, 1⟩

theorem longContent_fetched :
    storeTestcaseFileOnDisk (noFiles ∅) ⟨[], true⟩
        ((sampleNetwork longContent).ask chunkSizeInBytes "tg:1" sampleTestcase) sampleTestcase
        "run" (chunk chunkSizeInBytes longContent 0) false =
      .ok ⟨true, (noFiles ∅).write runFile longContent, [1]⟩ := by
  have hC : 0 < chunkSizeInBytes := by decide
  have hask : ∀ j < chunkCount chunkSizeInBytes longContent.length,
      (sampleNetwork longContent).ask chunkSizeInBytes "tg:1" sampleTestcase j =
        .ok (some ⟨j, chunk chunkSizeInBytes longContent j,
          decide (j + 1 = chunkCount chunkSizeInBytes longContent.length)⟩) := fun j hj =>
    @ask_own _ (sampleNetwork longContent) _ _
      (.new sampleTestcase sampleParent "queue/tg-7" false 0) longContent hC chunkSizeInBytes_lt
      "tg:1" rfl rfl (fun _ => rfl) (fun _ => rfl) j hj
  have hmake : makeRoom (noFiles ∅) (StoreEnv.mk [] true).turns
      (generateTestcasePathAndFilename sampleTestcase "run") = .ok (some (noFiles ∅)) := rfl
  rw [store_eq _ _ hmake, if_pos rfl, if_neg (by decide),
    append_whole hC (by rw [longContent_chunks]; decide) hask, longContent_chunks]
  rfl

theorem longContent_delivered :
    pushTestcaseWithResultsToEvaluator chunkSizeInBytes ((noFiles ∅).write runFile longContent)
        "run" (sampleTurn longContent false knowingEvaluator).push cleanExit sampleTestcase
        sampleParent =
      .ok (true, (noFiles ∅).write runFile longContent) := by
  have hC : 0 < chunkSizeInBytes := by decide
  have hview : limited ((noFiles ∅).write runFile longContent).files (some longContent.length)
      (generateTestcasePathAndFilename sampleTestcase "run") = some (.healthy longContent) := by
    rw [limited, ← runFile, Host.write_files]
    rfl
  have hfirst : 0 < chunkCount chunkSizeInBytes longContent.length := by
    rw [longContent_chunks]
    decide
  have hload := healthy_load hC chunkSizeInBytes_lt hview hfirst (fun _ => 0)
  rw [longContent_chunks] at hload
  rw [pushTestcaseWithResultsToEvaluator]
  simp only [sampleTurn]
  rw [show ((0 : ℤ)) = ((0 : ℕ) : ℤ) from rfl, hload]
  rfl

theorem longContent_turn :
    newRunner.next chunkSizeInBytes "run" (.turn (sampleTurn longContent false knowingEvaluator)) =
      some afterDelivery := by
  have hfetched : getTestcaseFromGenerator chunkSizeInBytes
      (sampleTurn longContent false knowingEvaluator).net newRunner.host
      (sampleTurn longContent false knowingEvaluator).env "run"
      (sampleTurn longContent false knowingEvaluator).resp =
      .ok ⟨true, afterDelivery.host, [("tg:1", 1)]⟩ := by
    have hstored := longContent_fetched
    simp only [getTestcaseFromGenerator, sampleTurn, Bool.not_true, Bool.false_eq_true, if_false]
    rw [show sampleTestcase.m_serviceDescriptor.m_serviceHostAndPort = "tg:1" from rfl,
      newRunner, hstored]
    rfl
  have hprocess : TRMainWorker.processTestcase chunkSizeInBytes "run"
      (sampleTurn longContent false knowingEvaluator)
      ⟨sampleTestcase, sampleParent, chunk chunkSizeInBytes longContent 0, false, false, true⟩
      ⟨afterDelivery.host, true, 0⟩ = .ok afterDelivery := by
    have hafterwards : afterDelivery.host.afterwards
        (sampleTurn longContent false knowingEvaluator).meanwhile =
        (noFiles ∅).write runFile longContent := rfl
    have hresult : (sampleTurn longContent false knowingEvaluator).testResult = cleanExit := rfl
    rw [TRMainWorker.processTestcase]
    simp only
    rw [hresult, if_neg (by decide), hafterwards, longContent_delivered]
    rfl
  have hbody : newRunner.loopBody chunkSizeInBytes "run"
      (sampleTurn longContent false knowingEvaluator) = .ok afterDelivery := by
    rw [TRMainWorker.loopBody, if_neg (by decide)]
    simp only
    rw [if_neg (by decide), hfetched, Except.bind]
    simp only [Bool.not_true, Bool.false_eq_true, if_false]
    exact hprocess
  rw [TRMainWorker.next, hbody]
  rfl

/-- The evaluator answers before it asks for the second chunk. The file stays, unmarked, and
from then on every turn in which the testcase is sent again ends with the refused store. -/
theorem known_testcase_leaves_file :
    newRunner.host.Clean "run" ∧
    Run (TRMainWorker.next chunkSizeInBytes "run") newRunner
      [(newRunner, .turn (sampleTurn longContent false knowingEvaluator))] afterDelivery ∧
    afterDelivery.host.files runFile = some longContent ∧
    ¬ afterDelivery.host.Clean "run" ∧
    ∀ (turn : RunnerTurn) (receivedTestcase : GetTestcaseResponse),
      turn.resp = some receivedTestcase → receivedTestcase.id = sampleTestcase →
      afterDelivery.next chunkSizeInBytes "run" (.turn turn) = some afterDelivery := by
  have hfile : afterDelivery.host.files runFile = some longContent := Host.write_files ..
  have hunmarked : runFile ∉ afterDelivery.host.m_setOfFilesToDelete := Finset.notMem_empty runFile
  refine ⟨newRunner_clean, Run.single longContent_turn, hfile, fun hclean => ?_, ?_⟩
  · refine hunmarked (hclean.marked sampleTestcase ?_)
    rw [← runFile, hfile]
    simp
  · intro turn receivedTestcase hresp hid
    rw [runFile, ← hid] at hfile hunmarked
    exact refused_turn hresp rfl hfile hunmarked

end Fluffi.Runner
