import Fluffi.Evaluator.Coverage
import Fluffi.Runner.Fetch
import Fluffi.Shared.MarkedFiles

/-! The testcase files of a runner. The runner stores a testcase, executes it, and sends it with
the result to an evaluator. Whoever learns that the file is no longer needed marks it for
deletion: the runner itself, or the handler that the evaluator asks for the last chunk. -/

namespace Fluffi.Runner

open Shared Systems
open Evaluator (TestOutcomeDescriptor)

/-! ### The evaluator -/

structure PutTestResultRequest where
  id : FluffiTestcaseID
  parentid : FluffiTestcaseID
  result : FluffiTestResult
  testcasefirstchunk : Bytes
  islastchunk : Bool

/-- An evaluator as it handles a `PutTestResultRequest`. The queue is looked at after the store,
and other threads work on it. -/
structure EvaluatorTurn where
  host : Host
  m_testcaseDir : String
  env : StoreEnv
  m_testOutcomeQueue : List TestOutcomeDescriptor

def EvaluatorTurn.isThereAlreadyAToDFor (evaluator : EvaluatorTurn) (id : FluffiTestcaseID) :
    Bool :=
  evaluator.m_testOutcomeQueue.any fun testOutcome => testOutcome.m_id == id

/-- The answer, what the handler has left, and the chunks it asked the runner for. -/
structure PutTestResult where
  success : Bool
  host : Host
  m_testOutcomeQueue : List TestOutcomeDescriptor
  requests : List ℕ

/-- `PutTestResultRequestHandler::handleFLUFFIMessage` -/
def handlePutTestResultRequest (evaluator : EvaluatorTurn)
    (ask : ℕ → Except Abnormal (Option GetTestCaseChunkResponse)) (req : PutTestResultRequest) :
    Except Abnormal PutTestResult :=
  (storeTestcaseFileOnDisk evaluator.host evaluator.env ask req.id evaluator.m_testcaseDir
      req.testcasefirstchunk req.islastchunk).map fun stored =>
    if stored.success then
      ⟨true, stored.host, evaluator.m_testOutcomeQueue ++ [⟨req.id, req.parentid, req.result⟩],
        stored.requests⟩
    else
      ⟨evaluator.isThereAlreadyAToDFor req.id, stored.host, evaluator.m_testOutcomeQueue,
        stored.requests⟩

/-! ### The runner -/

/-- The delivery of a testcase. Message 0 is the `PutTestResultRequest` with the first chunk,
message `k` the evaluator's request for chunk `k`. For each of them, how much of the file can
be read then, what uninitialised memory holds, and whether message and answer arrive. -/
structure Push where
  evaluator : EvaluatorTurn
  readLimit : ℕ → Option ℕ
  leftover : ℕ → Leftover
  arrives : ℕ → Bool
  answered : ℕ → Bool

/-- What the runner's `GetTestcaseChunkRequestHandler` answers, and the file it marks. -/
def Push.answer (C : ℕ) (push : Push) (h : Host) (m_testcaseDir : String)
    (testcaseId : FluffiTestcaseID) (k : ℕ) :
    Except Abnormal (GetTestCaseChunkResponse × Option String) :=
  handleGetTestcaseChunkRequest C ⟨m_testcaseDir, true⟩ (limited h.files (push.readLimit k))
    (push.leftover k) testcaseId k

/-- `sendReqAndRecvResp` of the evaluator. -/
def Push.ask (C : ℕ) (push : Push) (h : Host) (m_testcaseDir : String)
    (testcaseId : FluffiTestcaseID) (k : ℕ) :
    Except Abnormal (Option GetTestCaseChunkResponse) :=
  if push.arrives k then
    (push.answer C h m_testcaseDir testcaseId k).map fun response =>
      if push.answered k then some response.1 else none
  else .ok none

/-- The mark that request `k` leaves, if it arrives. -/
def Push.mark (C : ℕ) (push : Push) (h : Host) (m_testcaseDir : String)
    (testcaseId : FluffiTestcaseID) (marked : Host) (k : ℕ) : Host :=
  if push.arrives k then
    match push.answer C h m_testcaseDir testcaseId k with
    | .ok (_, some testfile) => marked.markFileForDelete testfile
    | _ => marked
  else marked

/-- `pushTestcaseWithResultsToEvaluator` -/
def pushTestcaseWithResultsToEvaluator (C : ℕ) (h : Host) (m_testcaseDir : String) (push : Push)
    (testResult : FluffiTestResult) (testcaseId parentId : FluffiTestcaseID) :
    Except Abnormal (Bool × Host) :=
  (loadTestcaseChunkInMemory C (limited h.files (push.readLimit 0)) (push.leftover 0).heap
      testcaseId m_testcaseDir 0).bind fun (data, assigned) =>
    let isLastChunk := assigned.getD (push.leftover 0).isLastChunk
    let h :=
      if isLastChunk then
        h.markFileForDelete (generateTestcasePathAndFilename testcaseId m_testcaseDir)
      else h
    if !push.arrives 0 then .ok (false, h)
    else
      (handlePutTestResultRequest push.evaluator (push.ask C h m_testcaseDir testcaseId)
          ⟨testcaseId, parentId, testResult, data, isLastChunk⟩).map fun result =>
        (push.answered 0 && result.success,
          result.requests.foldl (push.mark C h m_testcaseDir testcaseId) h)

def isInternalError (testResult : FluffiTestResult) : Bool :=
  testResult.m_exitType == .Exception_Other &&
    testResult.m_crashFootprint.toList.take 16 == "Internal Error: ".toList

/-- One turn of the loop: the configuration and the partners it gets, the answer of the
generator, the store, what other threads do during the execution, its result and the delivery. -/
structure RunnerTurn where
  tryGetConfigFromLM : Bool
  generatorHAP : String
  evaluatorHAP : String
  resp : Option GetTestcaseResponse
  net : Network
  env : StoreEnv
  meanwhile : List Meanwhile
  testResult : FluffiTestResult
  push : Push

structure TRMainWorker where
  host : Host
  m_gotConfigFromLM : Bool
  m_numberOfProcessedTestcases : ℕ

/-- The part of the loop body that follows a successful fetch. -/
def TRMainWorker.processTestcase (C : ℕ) (m_testcaseDir : String) (turn : RunnerTurn)
    (receivedTestcase : GetTestcaseResponse) (s : TRMainWorker) : Except Abnormal TRMainWorker :=
  let testfile := generateTestcasePathAndFilename receivedTestcase.id m_testcaseDir
  let s := { s with
    host := s.host.afterwards turn.meanwhile
    m_numberOfProcessedTestcases := s.m_numberOfProcessedTestcases + 1 }
  if isInternalError turn.testResult then
    .ok { s with host := s.host.markFileForDelete testfile }
  else
    (pushTestcaseWithResultsToEvaluator C s.host m_testcaseDir turn.push turn.testResult
        receivedTestcase.id receivedTestcase.parentid).map fun (success, host) =>
      if success then { s with host := host }
      else { s with host := host.markFileForDelete testfile }

/-- The loop body of `TRMainWorker::workerMain`. -/
def TRMainWorker.loopBody (C : ℕ) (m_testcaseDir : String) (turn : RunnerTurn)
    (s : TRMainWorker) : Except Abnormal TRMainWorker :=
  if !s.m_gotConfigFromLM && !turn.tryGetConfigFromLM then .ok s
  else
    let s := { s with m_gotConfigFromLM := true }
    if turn.generatorHAP = "" || turn.evaluatorHAP = "" then .ok s
    else
      (getTestcaseFromGenerator C turn.net s.host turn.env m_testcaseDir turn.resp).bind
        fun fetched =>
          let s := { s with host := fetched.host }
          if !fetched.success then .ok s
          else s.processTestcase C m_testcaseDir turn (turn.resp.getD .unset)

inductive RunnerEvent where
  | turn (turn : RunnerTurn)
  | otherThread (step : Meanwhile)

/-- From one loop head to the next, and what other threads do at a loop head. They mark files
too: a request for the last chunk can come late. -/
def TRMainWorker.next (C : ℕ) (m_testcaseDir : String) (s : TRMainWorker) :
    RunnerEvent → Option TRMainWorker
  | .turn turn => (s.loopBody C m_testcaseDir turn).toOption
  | .otherThread step => some { s with host := s.host.meanwhile step }

end Fluffi.Runner
