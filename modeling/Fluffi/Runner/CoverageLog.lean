import Fluffi.Runner.Drcov
import Fluffi.Runner.TestExecutor
import Fluffi.Systems.Run

/-! `TestExecutorDynRioMulti` in small steps. The runner knows which log file its target
writes next only through a number of its own, which is 0 when a target is started and changes
when a testcase ends well. Between two steps of the runner anything may happen to the target
and to the files. What the feeder and the debugger say comes with the steps. -/

namespace Fluffi.Runner.DynRioMulti

open Shared Systems SharedMem SharedMemMessageType Nudge PROCESS_TERMINATION_TYPE

variable {Block : Type*}

/-- Where the runner is: outside `execute`; in `attemptStartTargetAndFeeder`, before and after
the first log file is gone; in `runSingleTestcase`, before each of its steps, and behind it; or
in the second run of a testcase. -/
inductive Place where
  | idle
  | starting
  | launching
  | checking
  | resetting
  | feeding
  | fed
  | dumping
  | reading
  | returned (okay : Bool) (terminationType : PROCESS_TERMINATION_TYPE)
  | restarting
  | reproducing

/-- The executor, and what is around it, with the log file that a call of `execute` has read and the
blocks of its result. A block is to be covered if its module is. The number of the testcase is
ours. -/
structure Executor (Block : Type*) extends TestExecutor where
  m_modulesToCover : Block → Bool
  m_targetProcessID : ℕ
  drcovOutput : Option (LogFile Block)
  m_coveredBasicBlocks : List Block
  world : World Block
  testcase : ℕ
  place : Place

inductive Step (Block : Type*) where
  | execute
  | firstFileGone
  | started (pid : ℕ) (okay : Bool)
  | nudge
  | answer
  | feederAnswers (response : SharedMemMessageType)
  | readLog (removed : Bool)
  | gaveUp
  | classified (debugger : PROCESS_TERMINATION_TYPE) (exitStatus : ℤ)
  | reproduced
  | happens (event : Happening Block)

/-- Where the two nested classifications of the first run lead. -/
inductive Verdict where
  | advances
  | stops
  | reproduces
  deriving DecidableEq, Repr

def verdict (debugger : PROCESS_TERMINATION_TYPE) (exitStatus : ℤ)
    (feeder : PROCESS_TERMINATION_TYPE) : Verdict :=
  match debugger with
  | CLEAN =>
    if exitStatus = -1 then
      match feeder with
      | CLEAN => .advances
      | _ => .stops
    else .reproduces
  | EXCEPTION_OTHER | EXCEPTION_ACCESSVIOLATION => .reproduces
  | ERR | TIMEOUT => .stops

namespace Executor

/-- The constructor. -/
def new (modulesToCover : Block → Bool) (forceRestartAfterXTCs : ℤ)
    (files : ℕ → LogFiles Block) : Executor Block :=
  { TestExecutor.new forceRestartAfterXTCs with
    m_modulesToCover := modulesToCover
    m_targetProcessID := 0
    drcovOutput := none
    m_coveredBasicBlocks := []
    world := ⟨none, files⟩
    testcase := 0
    place := .idle }

/-- The beginning of `attemptStartTargetAndFeeder`: the old target is killed. -/
def start (attach use_dyn_rio : Bool) (s : Executor Block) : Executor Block :=
  { s with
    m_executionsSinceLastRestart := 0
    m_iterationNumMod2 := startIteration (.DynRioMulti attach) use_dyn_rio s.m_iterationNumMod2
    world := { s.world with target := none }
    place := if use_dyn_rio then .starting else .restarting }

def setOkay (s : Executor Block) (okay : Bool) (place : Place) : Executor Block :=
  { s with m_target_and_feeder_okay := okay, place := place }

/-- `getDrCovOutputFile` -/
def getDrCovOutputFile (s : Executor Block) (iterationNumMod2 : ℕ) : Option (LogFile Block) :=
  s.world.files s.m_targetProcessID iterationNumMod2

/-- A nudge reaches a target that is alive. -/
def nudge (s : Executor Block) (nudge : Nudge) (place : Place) : Executor Block :=
  { s with
    world := { s.world with
      target := s.world.target.map fun t =>
        if t.alive then { t with pending := t.pending ++ [(nudge, s.testcase)] } else t }
    place := place }

/-- A byte is read from the pipe, if there is one. -/
def answer (s : Executor Block) (expected : Char) (place : Place) : Option (Executor Block) :=
  s.world.target.bind fun t => match t.pipe with
    | [] => none
    | resp :: pipe => some { s with
        world := { s.world with target := some { t with pipe := pipe } }
        place := if resp = expected then place else .returned false ERR }

/-- The end of `runSingleTestcase`. -/
def readLog (s : Executor Block) (removed : Bool) : Executor Block :=
  match s.getDrCovOutputFile s.m_iterationNumMod2 with
  | none => { s with place := .returned false ERR }
  | some file =>
    let s := { s with
      drcovOutput := some file
      world := if removed then s.world.setFile s.m_targetProcessID s.m_iterationNumMod2 none
        else s.world }
    match file with
    | .opened => { s with place := .returned false ERR }
    -- `copyCoveredModulesToDebugExecutionOutput`
    | .completed blocks => { s with
        m_coveredBasicBlocks := s.m_coveredBasicBlocks ++ blocks.filter s.m_modulesToCover
        place := .returned true CLEAN }

/-- Behind the first run. -/
def classify (attach : Bool) (s : Executor Block) (okay : Bool) : Verdict → Executor Block
  | .advances => { s with
      m_target_and_feeder_okay := okay
      m_iterationNumMod2 := nextIteration (.DynRioMulti attach) s.m_iterationNumMod2
      place := .idle }
  | .stops => s.setOkay false .idle
  | .reproduces => s.start attach false

end Executor

def next (attach : Bool) (s : Executor Block) : Step Block → Option (Executor Block)
  | .execute => match s.place with
    | .idle =>
      let s := { s with
        toTestExecutor := forceRestart s.toTestExecutor
        drcovOutput := none
        m_coveredBasicBlocks := []
        testcase := s.testcase + 1 }
      some (if s.m_target_and_feeder_okay then { s with place := .checking }
        else s.start attach true)
    | _ => none
  | .firstFileGone => match s.place with
    | .starting =>
      if (s.getDrCovOutputFile s.m_iterationNumMod2).isNone then
        some { s with place := .launching }
      else none
    | _ => none
  -- the feeder is started when the process id is known, and may fail
  | .started pid okay => match s.place with
    | .launching => some ({ s with
        m_targetProcessID := pid
        world := { s.world with target := some (.start pid) }.setFile pid 0 (some .opened)
        }.setOkay okay (if okay then .checking else .idle))
    | .restarting => some ({ s with m_targetProcessID := pid }.setOkay okay
        (if okay then .reproducing else .idle))
    | _ => none
  | .nudge => match s.place with
    -- the dump will open the next file, which must not exist
    | .checking =>
      if (s.getDrCovOutputFile ((s.m_iterationNumMod2 + 1) % 2)).isNone then
        some (s.nudge NUDGE_RESET_COVERAGE .resetting)
      else none
    | .fed => some (s.nudge NUDGE_DUMP_CURRENT_COVERAGE .dumping)
    | _ => none
  | .answer => match s.place with
    | .resetting => s.answer 'R' .feeding
    | .dumping => s.answer 'D' .reading
    | _ => none
  | .feederAnswers response => match s.place with
    | .feeding =>
      let result := evaluateResponse .default response []
      some { s with place :=
        if response = SHARED_MEM_MESSAGE_FUZZ_DONE then .fed
        else .returned result.1 result.2.m_terminationType }
    | _ => none
  | .readLog removed => match s.place with
    | .reading => some (s.readLog removed)
    | _ => none
  -- a file that stays, a nudge that fails, no answer in time
  | .gaveUp => match s.place with
    | .starting | .launching | .restarting => some (s.setOkay false .idle)
    | .checking | .resetting | .feeding | .fed | .dumping =>
      some { s with place := .returned false ERR }
    | _ => none
  | .classified debugger exitStatus => match s.place with
    | .returned okay feeder => some (s.classify attach okay (verdict debugger exitStatus feeder))
    | _ => none
  | .reproduced => match s.place with
    | .reproducing => some (s.setOkay false .idle)
    | _ => none
  | .happens event => (s.world.happens event).map fun world => { s with world := world }

/-! ### The other model of the executor -/

theorem attemptStart_false_iteration (attach : Bool) (s : TestExecutor) (start : Start) :
    (attemptStartTargetAndFeeder (.DynRioMulti attach) false s start).2.m_iterationNumMod2 =
      s.m_iterationNumMod2 := by
  simp only [attemptStartTargetAndFeeder]
  split_ifs <;> rfl

theorem runSingleTestcase_iteration (kind : Kind) (s : TestExecutor)
    (testcaseId : FluffiTestcaseID) (exResult : DebugExecutionOutput) (covMode : CoverageMode)
    (run : SingleRun) :
    (runSingleTestcase kind s testcaseId exResult covMode run).2.2.m_iterationNumMod2 =
      s.m_iterationNumMod2 := by
  simp only [runSingleTestcase]
  split
  · rfl
  · split_ifs <;> rfl

theorem reproduce_stops (attach : Bool) (s : TestExecutor) (e : Execution) :
    (reproduce (.DynRioMulti attach) s e).2.m_target_and_feeder_okay = false ∧
      (reproduce (.DynRioMulti attach) s e).2.m_iterationNumMod2 = s.m_iterationNumMod2 := by
  have hstart := attemptStart_false_iteration attach s e.secondStart
  simp only [reproduce]
  split_ifs with hstarted
  · exact ⟨rfl, hstart⟩
  all_goals
    refine ⟨rfl, ?_⟩
    rw [← hstart]
    exact runSingleTestcase_iteration _ _ _ _ _ _

/-- Both models classify the first run alike. -/
theorem classify_verdict (attach : Bool) (e : Execution)
    (first : (Bool × DebugExecutionOutput) × Option Answer × TestExecutor) :
    let result := (Runner.classify (.DynRioMulti attach) e first).2.2
    match verdict e.view.exOutput.m_terminationType e.view.exitStatus
      first.1.2.m_terminationType with
    | .advances => result.m_target_and_feeder_okay = first.1.1 ∧
        result.m_iterationNumMod2 =
          nextIteration (.DynRioMulti attach) first.2.2.m_iterationNumMod2
    | _ => result.m_target_and_feeder_okay = false ∧
        result.m_iterationNumMod2 = first.2.2.m_iterationNumMod2 := by
  have hreproduce := reproduce_stops attach
    ({ first.2.2 with m_target_and_feeder_okay := first.1.1 }.ended false) e
  cases hdebugger : e.view.exOutput.m_terminationType with
  | CLEAN =>
    by_cases hstatus : e.view.exitStatus = -1
    · cases hfeeder : first.1.2.m_terminationType <;>
        simp [verdict, Runner.classify, hdebugger, hstatus, hfeeder]
    · simpa [verdict, Runner.classify, hdebugger, hstatus] using hreproduce
  | EXCEPTION_OTHER | EXCEPTION_ACCESSVIOLATION =>
    simpa [verdict, Runner.classify, hdebugger] using hreproduce
  | TIMEOUT | ERR => simp [verdict, Runner.classify, hdebugger]

end Fluffi.Runner.DynRioMulti
