import Fluffi.Runner.Feeder

/-! `execute` of the two test executors, `TestExecutorGDB` and
`TestExecutorDynRioMulti`. Both follow one plan: restart the target and the
feeder if that is due, run the testcase, look at what the debugger and the feeder
say, and run a crashing testcase once more without instrumentation. Where their
texts or checks differ, the functions here distinguish the two kinds. What the
target, the debugger and the operating system answer is part of the call; the
log of a run is ours. -/

namespace Fluffi.Runner

open Shared SharedMem SharedMemMessageType

inductive PROCESS_TERMINATION_TYPE where
  | CLEAN
  | EXCEPTION_OTHER
  | EXCEPTION_ACCESSVIOLATION
  | TIMEOUT
  | ERR
  deriving DecidableEq, Repr

open PROCESS_TERMINATION_TYPE

structure DebugExecutionOutput where
  m_firstCrash : String
  m_lastCrash : String
  m_terminationType : PROCESS_TERMINATION_TYPE
  m_terminationDescription : String
  m_hasFullCoverage : Bool
  deriving DecidableEq, Repr

/-- The default constructor. -/
def DebugExecutionOutput.default : DebugExecutionOutput := ⟨"", "", ERR, "NOT SET", true⟩

inductive CoverageMode where
  | NONE
  | FULL
  | PARTIAL
  deriving DecidableEq, Repr

/-- The executor; the one for DynamoRIO can attach to a target that was started elsewhere. -/
inductive Kind where
  | GDB
  | DynRioMulti (m_attachInsteadOfStart : Bool)
  deriving DecidableEq, Repr

/-- What happened, latest first. `used` is an answer a testcase was classified with. A run that
crashed has `finished` before the testcase is run again. -/
inductive Event where
  | started (mailbox : ℕ)
  | ran (testcaseId : FluffiTestcaseID)
  | sent (sending : ℕ) (testcaseId : FluffiTestcaseID) (mailbox : ℕ)
  | used (sending : ℕ) (testcaseId : FluffiTestcaseID) (answer : Answer)
  | finished (clean : Bool)
  deriving DecidableEq

structure TestExecutor where
  m_forceRestartAfterXTCs : ℤ
  m_executionsSinceLastRestart : ℤ
  m_target_and_feeder_okay : Bool
  m_iterationNumMod2 : ℕ
  feeders : Feeders
  sendings : ℕ
  log : List Event

/-! ### Starting target and feeder -/

/-- How the target part of a start goes. -/
structure TargetStart where
  drcovFileDeleted : Bool
  pipeCreated : Bool
  pipeOpened : Bool
  registrationSet : Bool
  starterInitialized : Bool
  starterCompleted : Bool
  targetBeingDebugged : Bool
  dynRioInitialized : Bool
  samePID : Bool

/-- How the feeder part of a start goes. -/
structure FeederStart where
  mailboxCreated : Bool
  processInitialized : Bool
  processRun : Bool
  sent : Bool
  moves : Moves
  errors : List Errno
  interruptReset : Bool

structure Start where
  target : TargetStart
  feeder : FeederStart

def targetPart : Kind → Bool → TargetStart → Bool
  | .GDB, _, t => t.starterInitialized && t.starterCompleted && t.targetBeingDebugged
  | .DynRioMulti attach, use_dyn_rio, t =>
    (!use_dyn_rio || t.drcovFileDeleted && t.pipeCreated && t.pipeOpened) &&
      (!attach || t.registrationSet && t.starterInitialized && t.starterCompleted) &&
      t.targetBeingDebugged && (!use_dyn_rio || t.dynRioInitialized) &&
      (!(use_dyn_rio && attach) || t.samePID)

def initializeFeeder (f : Feeders) (start : FeederStart) : Bool × Feeders :=
  if !start.processInitialized || !start.processRun || !start.sent then (false, f)
  else
    let f := (f.sendMessageToClient .TARGET_PID).moves start.moves
    let response := f.waitForNewMessageToServer ⟨start.errors, none⟩
    (response.1 == SHARED_MEM_MESSAGE_READY_TO_FUZZ, response.2.2)

def feederPart (f : Feeders) (start : FeederStart) : Bool × Feeders :=
  let f := f.create
  if !start.mailboxCreated then (false, f)
  else
    let initialized := initializeFeeder f start
    (initialized.1 && start.interruptReset, initialized.2)

/-- Only a start under DynamoRIO begins with the first of its two log files. -/
def startIteration : Kind → Bool → ℕ → ℕ
  | .GDB, _, n => n
  | .DynRioMulti _, use_dyn_rio, n => if use_dyn_rio then 0 else n

def attemptStartTargetAndFeeder (kind : Kind) (use_dyn_rio : Bool) (s : TestExecutor)
    (start : Start) : Bool × TestExecutor :=
  let s := { s with
    m_executionsSinceLastRestart := 0
    m_iterationNumMod2 := startIteration kind use_dyn_rio s.m_iterationNumMod2 }
  if !targetPart kind use_dyn_rio start.target then (false, s)
  else
    let fed := feederPart s.feeders start.feeder
    if !fed.1 then (false, { s with feeders := fed.2 })
    else (true, { s with
      feeders := fed.2
      log := .started fed.2.m_sharedMemIPC_toFeeder :: s.log })

/-! ### A single testcase -/

/-- What the system answers while one testcase runs. The first fields belong to
GDB's coverage states, the next to DynamoRIO, the last to the feeder. -/
structure SingleRun where
  coverageResetted : Bool
  coverageDumped : Bool
  nextDrcovFileDeleted : Bool
  nudgeReset : ℕ
  resetResponse : Char
  resetInTime : Bool
  nudgeDump : ℕ
  dumpResponse : Char
  dumpInTime : Bool
  drcovLogFile : String
  drcovOutputSize : ℕ
  m_targetProcessID : ℕ
  before : Moves
  sent : Bool
  moves : Moves
  wait : WaitCall

/-- The first check that fails, with its description. -/
def firstFailure : List (Bool × String) → Option String
  | [] => none
  | (ok, description) :: checks => if ok then firstFailure checks else some description

def resetChecks (kind : Kind) (run : SingleRun) : List (Bool × String) :=
  match kind with
  | .GDB =>
    [(run.coverageResetted,
      "Problem while resetting the coverage (a timeout occured): Increase hangTimeout!")]
  | .DynRioMulti _ =>
    [(run.nextDrcovFileDeleted, "Could not delete the next drcov file in time!"),
      (run.nudgeReset == 0, "dr_nudge_pid failed (1):" ++ toString run.nudgeReset ++ " PID:" ++
        toString run.m_targetProcessID),
      (run.resetResponse == 'R', "Problem while communicating with dynamoRio (1)!" ++
        if run.resetInTime then "no timeout" else "timeout")]

def dumpChecks (kind : Kind) (run : SingleRun) : List (Bool × String) :=
  match kind with
  | .GDB => [(run.coverageDumped, "Problem while dumping the coverage!")]
  | .DynRioMulti _ =>
    [(run.nudgeDump == 0, "dr_nudge_pid failed (2)" ++ toString run.nudgeDump ++ " PID:" ++
        toString run.m_targetProcessID),
      (run.dumpResponse == 'D', "Problem while communicating with dynamoRio (2)!" ++
        if run.dumpInTime then "no timeout" else "timeout"),
      (run.drcovLogFile != "", " Could not find DrCov File!"),
      (run.drcovOutputSize != 0, "drcovOutput is of length 0!")]

/-- The end of a run, by the type of the message from the feeder. -/
def evaluateResponse (exResult : DebugExecutionOutput) (response : SharedMemMessageType)
    (dump : List (Bool × String)) : Bool × DebugExecutionOutput :=
  if response = SHARED_MEM_MESSAGE_FUZZ_DONE then
    match firstFailure dump with
    | some description => (false, { exResult with
        m_terminationType := ERR
        m_terminationDescription := description })
    | none => (true, { exResult with
        m_terminationType := CLEAN
        m_terminationDescription := "Fuzzcase executed normally!" })
  else if response = SHARED_MEM_MESSAGE_WAIT_INTERRUPTED then
    (false, { exResult with
      m_terminationType := ERR
      m_terminationDescription := "Communication with feeder was interrupted!" })
  else if response = SHARED_MEM_MESSAGE_TRANSMISSION_TIMEOUT then
    (false, { exResult with
      m_terminationType := TIMEOUT
      m_terminationDescription := "Communication with feeder timed out!" })
  else if response = SHARED_MEM_MESSAGE_TARGET_CRASHED then
    (true, { exResult with
      m_terminationType := EXCEPTION_OTHER
      m_terminationDescription := "Feeder claims that target crashed!"
      m_firstCrash := "FEEDER CLAIMS CRASH"
      m_lastCrash := "FEEDER CLAIMS CRASH" })
  else (false, { exResult with
    m_terminationType := ERR
    m_terminationDescription := "Feeder returned a not expected message. " ++
      "We received a message of type " ++ toString response.value })

/-- The answer the feeder gave in time, next to what the function returns. -/
def runSingleTestcase (kind : Kind) (s : TestExecutor) (testcaseId : FluffiTestcaseID)
    (exResult : DebugExecutionOutput) (covMode : CoverageMode) (run : SingleRun) :
    (Bool × DebugExecutionOutput) × Option Answer × TestExecutor :=
  let s := { s with
    sendings := s.sendings + 1
    feeders := s.feeders.moves run.before
    log := .ran testcaseId :: s.log }
  match firstFailure (if covMode = .NONE then [] else resetChecks kind run) with
  | some description => ((false, { exResult with
      m_terminationType := ERR
      m_terminationDescription := description }), none, s)
  | none =>
    if !run.sent then ((false, { exResult with
      m_terminationType := ERR
      m_terminationDescription := "Problem while sending a fuzzing filename to the feeder!" }),
      none, s)
    else
      let feeders := s.feeders.sendMessageToClient (.FUZZ_FILENAME s.sendings testcaseId)
      let response := (feeders.moves run.moves).waitForNewMessageToServer run.wait
      let sentLog := .sent s.sendings testcaseId feeders.m_sharedMemIPC_toFeeder :: s.log
      (evaluateResponse exResult response.1
          (if covMode = .NONE then [] else dumpChecks kind run),
        response.2.1,
        { s with
          feeders := response.2.2
          log := match response.2.1 with
            | some answer => .used s.sendings testcaseId answer :: sentLog
            | none => sentLog })

/-! ### A testcase and its classification -/

/-- The debugger's output and the exit status of the target, as read at one moment. -/
structure DebuggerView where
  exOutput : DebugExecutionOutput
  exitStatus : ℤ

/-- One call of `execute`, with all that the system answers during it. The views
are what the debugger shows when the result is chosen, and twice more after the
testcase was run again. -/
structure Execution where
  testcaseId : FluffiTestcaseID
  forceFullCoverage : Bool
  start : Start
  run : SingleRun
  view : DebuggerView
  originalCrashType : PROCESS_TERMINATION_TYPE
  secondStart : Start
  secondRun : SingleRun
  terminated : DebuggerView
  reproduced : DebuggerView

/-- The condition at the top of `execute`: the counter is incremented by the comparison. -/
def forceRestart (s : TestExecutor) : TestExecutor :=
  if s.m_forceRestartAfterXTCs > 0 then
    { s with
      m_executionsSinceLastRestart := s.m_executionsSinceLastRestart + 1
      m_target_and_feeder_okay := s.m_target_and_feeder_okay &&
        !decide (s.m_executionsSinceLastRestart > s.m_forceRestartAfterXTCs) }
  else s

/-- An output of the GDB executor that covers nothing; the other executor keeps the default. -/
def withoutCoverage (kind : Kind) (exResult : DebugExecutionOutput) : DebugExecutionOutput :=
  match kind with
  | .GDB => { exResult with m_hasFullCoverage := false }
  | .DynRioMulti _ => exResult

/-- The second run of a testcase that crashed, without instrumentation. -/
def reproduce (kind : Kind) (s : TestExecutor) (e : Execution) :
    DebugExecutionOutput × TestExecutor :=
  let started := attemptStartTargetAndFeeder kind false s e.secondStart
  if !started.1 then
    (withoutCoverage kind { DebugExecutionOutput.default with
      m_terminationType := ERR
      m_terminationDescription :=
        "Either target or feeder coould not be started to reproduce the exception!" },
      { started.2 with m_target_and_feeder_okay := false })
  else
    let second := runSingleTestcase kind started.2 e.testcaseId
      (withoutCoverage kind .default) .NONE e.secondRun
    let s := { second.2.2 with m_target_and_feeder_okay := false }
    if e.terminated.exOutput.m_terminationType = CLEAN ∧ e.terminated.exitStatus ≠ -1 then
      ({ DebugExecutionOutput.default with
        m_terminationType := match kind with
          | .GDB => e.originalCrashType
          | .DynRioMulti _ => EXCEPTION_OTHER
        m_terminationDescription := "The request reproducibly causes the target to terminate!"
        m_firstCrash := "TARGET_TERMINATED"
        m_lastCrash := "TARGET_TERMINATED" }, s)
    else if e.reproduced.exOutput.m_terminationType = CLEAN ∨
        e.reproduced.exOutput.m_terminationType = TIMEOUT ∨
        e.reproduced.exOutput.m_terminationType = ERR then
      (withoutCoverage kind { DebugExecutionOutput.default with
        m_terminationType := e.originalCrashType
        m_terminationDescription := "The found exception could not be reproduced!"
        m_firstCrash := "NOT_REPRODUCIBLE"
        m_lastCrash := "NOT_REPRODUCIBLE" }, s)
    else (e.reproduced.exOutput, s)

def nextIteration : Kind → ℕ → ℕ
  | .GDB, n => n
  | .DynRioMulti _, n => (n + 1) % 2

/-- The end of a run is noted. -/
def TestExecutor.ended (s : TestExecutor) (clean : Bool) : TestExecutor :=
  { s with log := .finished clean :: s.log }

@[simp] theorem TestExecutor.ended_iteration (s : TestExecutor) (clean : Bool) :
    (s.ended clean).m_iterationNumMod2 = s.m_iterationNumMod2 := rfl

/-- The two nested classifications of the first run. The flag says whether the
feeder answered `FUZZ_DONE` in time and the target still runs. -/
def classify (kind : Kind) (e : Execution)
    (first : (Bool × DebugExecutionOutput) × Option Answer × TestExecutor) :
    DebugExecutionOutput × Bool × TestExecutor :=
  let exOutput_FROM_FEEDER := first.1.2
  let s := { first.2.2 with m_target_and_feeder_okay := first.1.1 }
  let done := first.2.1.map Answer.messageType == some SHARED_MEM_MESSAGE_FUZZ_DONE
  match e.view.exOutput.m_terminationType with
  | CLEAN =>
    if e.view.exitStatus = -1 then
      match exOutput_FROM_FEEDER.m_terminationType with
      | CLEAN => (exOutput_FROM_FEEDER, done, { s with
          m_iterationNumMod2 := nextIteration kind s.m_iterationNumMod2 })
      | _ => (exOutput_FROM_FEEDER, done, { s with m_target_and_feeder_okay := false })
    else
      let second := reproduce kind (s.ended false) e
      (second.1, false, second.2)
  | EXCEPTION_OTHER | EXCEPTION_ACCESSVIOLATION =>
    let second := reproduce kind (s.ended false) e
    (second.1, false, second.2)
  | ERR | TIMEOUT => (e.view.exOutput, false, { s with m_target_and_feeder_okay := false })

/-- The first run after a start of GDB covers everything. -/
def hasFullCoverage (kind : Kind) (e : Execution) (firstRun : Bool) : Bool :=
  match kind with
  | .GDB => e.forceFullCoverage || firstRun
  | .DynRioMulti _ => true

def runAndClassify (kind : Kind) (s : TestExecutor) (e : Execution) (firstRun : Bool) :
    DebugExecutionOutput × Bool × TestExecutor :=
  let full := hasFullCoverage kind e firstRun
  classify kind e (runSingleTestcase kind s e.testcaseId
    { DebugExecutionOutput.default with m_hasFullCoverage := full }
    (if full then .FULL else .PARTIAL) e.run)

def execute (kind : Kind) (s : TestExecutor) (e : Execution) :
    DebugExecutionOutput × TestExecutor :=
  let s := forceRestart s
  let result :=
    if s.m_target_and_feeder_okay then runAndClassify kind s e false
    else
      let started := attemptStartTargetAndFeeder kind true s e.start
      let s := { started.2 with m_target_and_feeder_okay := started.1 }
      if !started.1 then
        (withoutCoverage kind { DebugExecutionOutput.default with
          m_terminationType := ERR
          m_terminationDescription := "Either target or feeder could not be started!" }, false, s)
      else runAndClassify kind s e true
  (result.1, { result.2.2 with log := .finished result.2.1 :: result.2.2.log })

/-- `TestExecutorGDB::execute` -/
def TestExecutorGDB.execute : TestExecutor → Execution → DebugExecutionOutput × TestExecutor :=
  Runner.execute .GDB

/-- `TestExecutorDynRioMulti::execute` -/
def TestExecutorDynRioMulti.execute (m_attachInsteadOfStart : Bool) :
    TestExecutor → Execution → DebugExecutionOutput × TestExecutor :=
  Runner.execute (.DynRioMulti m_attachInsteadOfStart)

/-- The constructors. -/
def TestExecutor.new (forceRestartAfterXTCs : ℤ) : TestExecutor :=
  ⟨forceRestartAfterXTCs, 0, false, 0, ⟨fun _ => .empty, 0⟩, 0, []⟩

/-- An executor after a sequence of calls. -/
def afterCalls (kind : Kind) (X : ℤ) (calls : List Execution) : TestExecutor :=
  calls.foldl (fun s e => (execute kind s e).2) (.new X)

theorem afterCalls_snoc (kind : Kind) (X : ℤ) (calls : List Execution) (e : Execution) :
    afterCalls kind X (calls ++ [e]) = (execute kind (afterCalls kind X calls) e).2 := by
  simp [afterCalls]

/-! ### What a start and a run do -/

variable {kind : Kind} {use_dyn_rio : Bool} {s : TestExecutor} {start : Start}

theorem initializeFeeder_box (f : Feeders) (start : FeederStart) :
    (initializeFeeder f start).2.m_sharedMemIPC_toFeeder = f.m_sharedMemIPC_toFeeder := by
  simp only [initializeFeeder]
  split
  · rfl
  · rw [Feeders.wait_box, Feeders.moves_box, Feeders.send_box]

theorem feederPart_box (f : Feeders) (start : FeederStart) :
    (feederPart f start).2.m_sharedMemIPC_toFeeder = f.m_sharedMemIPC_toFeeder + 1 := by
  simp only [feederPart]
  split
  · rfl
  · exact initializeFeeder_box f.create start

/-- A feeder that started has nothing left to say. -/
theorem feederPart_idle {f : Feeders} {start : FeederStart} (h : (feederPart f start).1 = true) :
    (feederPart f start).2.Idle := by
  simp only [feederPart, initializeFeeder] at h ⊢
  split_ifs at h ⊢
  · simp at h
  · simp only [Bool.and_eq_true, beq_iff_eq] at h
    have hasked : ((f.create.sendMessageToClient .TARGET_PID).moves start.moves).Asked
        .TARGET_PID := (Feeders.create_idle.send).moves start.moves
    cases hasked.wait ⟨start.errors, none⟩ with
    | inl hnone =>
      rw [h.1] at hnone
      obtain ⟨_, herror | hinterrupted | htimeout⟩ := hnone
      · exact absurd herror (by decide)
      · exact absurd hinterrupted (by decide)
      · exact absurd htimeout (by decide)
    | inr hanswer =>
      obtain ⟨_, _, _, _, hidle⟩ := hanswer
      exact hidle

/-- A start either fails, and the log stays as it is, or it succeeds with a new
mailbox that nothing is on its way in. -/
theorem attemptStart_cases (kind : Kind) (use_dyn_rio : Bool) (s : TestExecutor) (start : Start) :
    ((attemptStartTargetAndFeeder kind use_dyn_rio s start).1 = false ∧
        (attemptStartTargetAndFeeder kind use_dyn_rio s start).2.log = s.log ∧
        s.feeders.m_sharedMemIPC_toFeeder ≤ (attemptStartTargetAndFeeder kind use_dyn_rio s
          start).2.feeders.m_sharedMemIPC_toFeeder) ∨
      ((attemptStartTargetAndFeeder kind use_dyn_rio s start).1 = true ∧
        (attemptStartTargetAndFeeder kind use_dyn_rio s start).2.feeders.Idle ∧
        (attemptStartTargetAndFeeder kind use_dyn_rio s start).2.feeders.m_sharedMemIPC_toFeeder =
          s.feeders.m_sharedMemIPC_toFeeder + 1 ∧
        (attemptStartTargetAndFeeder kind use_dyn_rio s start).2.log =
          .started (s.feeders.m_sharedMemIPC_toFeeder + 1) :: s.log) := by
  have hbox := feederPart_box s.feeders start.feeder
  simp only [attemptStartTargetAndFeeder]
  split_ifs with htarget hfeeder
  · exact .inl ⟨rfl, rfl, le_rfl⟩
  · exact .inl ⟨rfl, rfl, by simp only [hbox]; omega⟩
  · refine .inr ⟨rfl, feederPart_idle (by simpa using hfeeder), hbox, ?_⟩
    rw [hbox]

@[simp] theorem attemptStart_counter :
    (attemptStartTargetAndFeeder kind use_dyn_rio s start).2.m_executionsSinceLastRestart = 0 := by
  simp only [attemptStartTargetAndFeeder]
  split_ifs <;> rfl

@[simp] theorem attemptStart_force :
    (attemptStartTargetAndFeeder kind use_dyn_rio s start).2.m_forceRestartAfterXTCs =
      s.m_forceRestartAfterXTCs := by
  simp only [attemptStartTargetAndFeeder]
  split_ifs <;> rfl

variable {testcaseId : FluffiTestcaseID} {exResult : DebugExecutionOutput}
  {covMode : CoverageMode} {run : SingleRun}

theorem evaluateResponse_okay {response : SharedMemMessageType} {dump : List (Bool × String)}
    (h : (evaluateResponse exResult response dump).1 = true) :
    response = SHARED_MEM_MESSAGE_FUZZ_DONE ∨ response = SHARED_MEM_MESSAGE_TARGET_CRASHED := by
  simp only [evaluateResponse] at h
  split_ifs at h with hdone hinterrupted htimeout hcrashed
  · exact .inl hdone
  · exact .inr hcrashed

theorem evaluateResponse_clean {response : SharedMemMessageType} {dump : List (Bool × String)}
    (h : (evaluateResponse exResult response dump).2.m_terminationType = CLEAN) :
    response = SHARED_MEM_MESSAGE_FUZZ_DONE := by
  simp only [evaluateResponse] at h
  split_ifs at h with hdone
  exact hdone

/-- How a run ends: the filename was not sent, or nothing came back in time, or
the feeder answered this very filename and the mailbox is idle again. -/
theorem runSingleTestcase_cases (kind : Kind) (testcaseId : FluffiTestcaseID)
    (exResult : DebugExecutionOutput) (covMode : CoverageMode) (run : SingleRun)
    (hidle : s.feeders.Idle) :
    let r := runSingleTestcase kind s testcaseId exResult covMode run
    let box := s.feeders.m_sharedMemIPC_toFeeder
    r.2.2.feeders.m_sharedMemIPC_toFeeder = box ∧
      ((r.1.1 = false ∧ r.2.1 = none ∧ r.2.2.log = .ran testcaseId :: s.log) ∨
        (r.1.1 = false ∧ r.2.1 = none ∧
          r.2.2.log = .sent (s.sendings + 1) testcaseId box :: .ran testcaseId :: s.log) ∨
        (∃ answer, r.2.1 = some answer ∧
          answer.question = .FUZZ_FILENAME (s.sendings + 1) testcaseId ∧
          r.2.2.feeders.Idle ∧
          (r.1.2.m_terminationType = CLEAN →
            answer.messageType = SHARED_MEM_MESSAGE_FUZZ_DONE) ∧
          r.2.2.log = .used (s.sendings + 1) testcaseId answer ::
            .sent (s.sendings + 1) testcaseId box :: .ran testcaseId :: s.log)) := by
  simp only [runSingleTestcase]
  split
  · exact ⟨Feeders.moves_box _, .inl ⟨rfl, rfl, rfl⟩⟩
  · split_ifs
    · exact ⟨Feeders.moves_box _, .inl ⟨rfl, rfl, rfl⟩⟩
    all_goals
      have hasked : (((s.feeders.moves run.before).sendMessageToClient
          (.FUZZ_FILENAME (s.sendings + 1) testcaseId)).moves run.moves).Asked
            (.FUZZ_FILENAME (s.sendings + 1) testcaseId) :=
        (Feeders.Idle.send (hidle.moves run.before)).moves run.moves
      refine ⟨by simp [Feeders.wait_box], .inr ?_⟩
      cases hasked.wait run.wait with
      | inl hnone =>
        obtain ⟨hnone, hresponse⟩ := hnone
        refine .inl ⟨?_, hnone, by simp [hnone]⟩
        by_contra hokay
        have hanswered := evaluateResponse_okay (Bool.eq_true_of_not_eq_false hokay)
        obtain h | h | h := hresponse
        all_goals
          rw [h] at hanswered
          exact absurd hanswered (by decide)
      | inr hanswer =>
        obtain ⟨answer, hsome, hquestion, htype, hidle'⟩ := hanswer
        refine .inr ⟨answer, hsome, hquestion, hidle', ?_, by simp [hsome]⟩
        intro hclean
        rw [← htype]
        exact evaluateResponse_clean hclean

end Fluffi.Runner
