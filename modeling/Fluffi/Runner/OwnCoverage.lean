import Fluffi.Runner.CoverageLog

/-! Whose coverage a result holds. The number of the runner follows the dumps of its target, so
the file that is read is the one its target wrote for this very testcase. -/

namespace Fluffi.Runner.DynRioMulti

open Shared Systems SharedMem SharedMemMessageType Nudge PROCESS_TERMINATION_TYPE

variable {Block : Type*}

/-! ### What the runner knows -/

/-- The places of `execute` before a log file is read. -/
def Place.Unread : Place → Prop
  | .starting | .launching | .checking | .resetting | .feeding | .fed | .dumping | .reading => True
  | _ => False

/-- Nothing was read yet. -/
def Unread (s : Executor Block) : Prop :=
  s.place.Unread → s.drcovOutput = none ∧ s.m_coveredBasicBlocks = []

/-- The target is the one with the known process id. A reset is answered before the feeder is
told the testcase, and a dump before the log file is read. -/
def Inv (s : Executor Block) : Prop :=
  match s.place with
  | .idle => s.m_target_and_feeder_okay = true →
      s.world.Running s.m_targetProcessID [] [] (AtFile s.m_iterationNumMod2)
  | .starting | .launching => s.m_iterationNumMod2 = 0
  | .checking => s.world.Running s.m_targetProcessID [] [] (AtFile s.m_iterationNumMod2)
  | .resetting => s.world.Waiting s.m_targetProcessID NUDGE_RESET_COVERAGE s.testcase
      (AtFile s.m_iterationNumMod2) (Covering s.testcase s.m_iterationNumMod2)
  | .feeding | .fed =>
      s.world.Running s.m_targetProcessID [] [] (Covering s.testcase s.m_iterationNumMod2)
  | .dumping => s.world.Waiting s.m_targetProcessID NUDGE_DUMP_CURRENT_COVERAGE s.testcase
      (Covering s.testcase s.m_iterationNumMod2) (Dumped s.testcase s.m_iterationNumMod2)
  | .reading =>
      s.world.Running s.m_targetProcessID [] [] (Dumped s.testcase s.m_iterationNumMod2)
  | .returned _ terminationType => (terminationType = CLEAN → s.drcovOutput ≠ none) ∧
      ∀ file ∈ s.drcovOutput, s.world.Running s.m_targetProcessID [] []
        (Reported s.m_modulesToCover s.testcase s.m_iterationNumMod2 file s.m_coveredBasicBlocks)
  | .restarting | .reproducing => True

variable {attach : Bool} {s t : Executor Block}

/-! ### What one step does -/

/-- The state in which a call of `execute` looks at its target. -/
def called (s : Executor Block) : Executor Block :=
  { s with
    toTestExecutor := forceRestart s.toTestExecutor
    drcovOutput := none
    m_coveredBasicBlocks := []
    testcase := s.testcase + 1 }

/-- The cases of `next`. Where the target is given up or runs without DynamoRIO, only the place
matters. -/
inductive StepCase (attach : Bool) (s : Executor Block) : Executor Block → Prop
  | happens {event : Happening Block} {world : World Block} :
      s.world.happens event = some world → StepCase attach s { s with world := world }
  | stops {t : Executor Block} : t.place = .idle → t.m_target_and_feeder_okay = false →
      StepCase attach s t
  | reproduces {t : Executor Block} : t.place = .restarting ∨ t.place = .reproducing →
      StepCase attach s t
  | goesOn : s.place = .idle → (called s).m_target_and_feeder_okay = true →
      StepCase attach s { called s with place := .checking }
  | startsAnew : s.place = .idle → StepCase attach s ((called s).start attach true)
  | launches : s.place = .starting → StepCase attach s { s with place := .launching }
  | started (pid : ℕ) : s.place = .launching → StepCase attach s ({ s with
      m_targetProcessID := pid
      world := { s.world with target := some (.start pid) }.setFile pid 0 (some .opened)
      }.setOkay true .checking)
  | resets : s.place = .checking → StepCase attach s (s.nudge NUDGE_RESET_COVERAGE .resetting)
  | dumps : s.place = .fed → StepCase attach s (s.nudge NUDGE_DUMP_CURRENT_COVERAGE .dumping)
  | wasReset {t : Executor Block} : s.place = .resetting → s.answer 'R' .feeding = some t →
      StepCase attach s t
  | wasDumped {t : Executor Block} : s.place = .dumping → s.answer 'D' .reading = some t →
      StepCase attach s t
  | feederDone : s.place = .feeding → StepCase attach s { s with place := .fed }
  | fails (okay : Bool) {terminationType : PROCESS_TERMINATION_TYPE} : s.place.Unread →
      terminationType ≠ CLEAN → StepCase attach s { s with place := .returned okay terminationType }
  | readLog (removed : Bool) : s.place = .reading → StepCase attach s (s.readLog removed)
  | advances {okay : Bool} : s.place = .returned okay CLEAN →
      StepCase attach s (s.classify attach okay .advances)

/-- Only a dump makes a run end well. -/
theorem not_clean_of_not_done {response : SharedMemMessageType}
    (h : response ≠ SHARED_MEM_MESSAGE_FUZZ_DONE) :
    (evaluateResponse .default response []).2.m_terminationType ≠ CLEAN :=
  fun hclean => h (evaluateResponse_clean hclean)

theorem verdict_advances {debugger feeder : PROCESS_TERMINATION_TYPE} {exitStatus : ℤ}
    (h : verdict debugger exitStatus feeder = .advances) : feeder = CLEAN := by
  cases debugger <;> simp only [verdict, reduceCtorEq] at h
  split_ifs at h
  cases feeder <;> simp_all

theorem stepCase {step : Step Block} (h : next attach s step = some t) :
    StepCase attach s t := by
  cases step with
  | execute =>
    simp only [next] at h
    split at h
    · next hplace =>
      obtain rfl := Option.some.inj h
      split_ifs with hokay
      · exact .goesOn hplace hokay
      · exact .startsAnew hplace
    · cases h
  | firstFileGone =>
    simp only [next] at h
    split at h
    · next hplace =>
      split_ifs at h
      obtain rfl := Option.some.inj h
      exact .launches hplace
    · cases h
  | started pid okay =>
    simp only [next] at h
    split at h
    · next hplace =>
      obtain rfl := Option.some.inj h
      cases okay with
      | false => exact .stops rfl rfl
      | true => exact .started pid hplace
    · obtain rfl := Option.some.inj h
      cases okay with
      | false => exact .stops rfl rfl
      | true => exact .reproduces (.inr rfl)
    · cases h
  | nudge =>
    simp only [next] at h
    split at h
    · next hplace =>
      split_ifs at h
      obtain rfl := Option.some.inj h
      exact .resets hplace
    · next hplace =>
      obtain rfl := Option.some.inj h
      exact .dumps hplace
    · cases h
  | answer =>
    simp only [next] at h
    split at h
    · next hplace => exact .wasReset hplace h
    · next hplace => exact .wasDumped hplace h
    · cases h
  | feederAnswers response =>
    simp only [next] at h
    split at h
    · next hplace =>
      obtain rfl := Option.some.inj h
      by_cases hdone : response = SHARED_MEM_MESSAGE_FUZZ_DONE
      · simp only [hdone, if_true]
        exact .feederDone hplace
      · simp only [hdone, if_false]
        exact .fails _ (by rw [hplace]; trivial) (not_clean_of_not_done hdone)
    · cases h
  | readLog removed =>
    simp only [next] at h
    split at h
    · next hplace =>
      obtain rfl := Option.some.inj h
      exact .readLog removed hplace
    · cases h
  | gaveUp =>
    cases hplace : s.place with
    | starting | launching | restarting =>
      simp only [next, hplace] at h
      obtain rfl := Option.some.inj h
      exact .stops rfl rfl
    | checking | resetting | feeding | fed | dumping =>
      simp only [next, hplace] at h
      obtain rfl := Option.some.inj h
      exact .fails _ (by rw [hplace]; trivial) (by decide)
    | idle | reading | returned | reproducing =>
      simp only [next, hplace] at h
      cases h
  | classified debugger exitStatus =>
    simp only [next] at h
    split at h
    · next okay feeder hplace =>
      obtain rfl := Option.some.inj h
      cases hverdict : verdict debugger exitStatus feeder with
      | advances =>
        rw [verdict_advances hverdict] at hplace
        exact .advances hplace
      | stops => exact .stops rfl rfl
      | reproduces => exact .reproduces (.inl rfl)
    · cases h
  | reproduced =>
    simp only [next] at h
    split at h
    · obtain rfl := Option.some.inj h
      exact .stops rfl rfl
    · cases h
  | happens event =>
    obtain ⟨world, hworld, rfl⟩ := Option.map_eq_some_iff.mp h
    exact .happens hworld

/-! ### The steps keep it -/

theorem inv_happens {event : Happening Block} {world : World Block} (hinv : Inv s)
    (hworld : s.world.happens event = some world) : Inv { s with world := world } := by
  unfold Inv at hinv ⊢
  cases hplace : s.place with
  | idle =>
    rw [hplace] at hinv
    exact fun hokay => (hinv hokay).quiet (lasting_atFile _) hworld
  | starting | launching =>
    rw [hplace] at hinv
    exact hinv
  | checking =>
    rw [hplace] at hinv
    exact hinv.quiet (lasting_atFile _) hworld
  | resetting =>
    rw [hplace] at hinv
    exact hinv.happens (carries_reset _ _) hworld
  | feeding | fed =>
    rw [hplace] at hinv
    exact hinv.quiet (lasting_covering _ _) hworld
  | dumping =>
    rw [hplace] at hinv
    exact hinv.happens (carries_dump _ _) hworld
  | reading =>
    rw [hplace] at hinv
    exact hinv.quiet (lasting_dumped _ _) hworld
  | returned okay feeder =>
    rw [hplace] at hinv
    exact ⟨hinv.1, fun file hfile => (hinv.2 file hfile).quiet (lasting_reported _ _ _ _ _) hworld⟩
  | restarting | reproducing => trivial

/-- A nudge is on its way, or it went to a dead target. -/
theorem waiting_nudge {nudge : Nudge} {place : Place}
    {P Q : History Block → LogFiles Block → Prop}
    (h : s.world.Running s.m_targetProcessID [] [] P) :
    (s.nudge nudge place).world.Waiting s.m_targetProcessID nudge s.testcase P Q := by
  obtain ⟨t, ht, hpid, hpending, hpipe, hfact⟩ := h
  cases halive : t.alive with
  | false =>
    exact .inr (.inl ⟨t, by simp [Executor.nudge, ht, halive], hpid, hpending, hpipe, trivial⟩)
  | true =>
    exact .inl ⟨{ t with pending := t.pending ++ [(nudge, s.testcase)] },
      by simp [Executor.nudge, ht, halive], hpid, by simp [hpending], hpipe, hfact⟩

/-- An answer means that the nudge was handled. -/
theorem answer_cases {nudge : Nudge} {testcase : ℕ} {place : Place}
    {P Q : History Block → LogFiles Block → Prop}
    (h : s.world.Waiting s.m_targetProcessID nudge testcase P Q)
    (hanswer : s.answer nudge.response place = some t) :
    ∃ world, t = { s with world := world, place := place } ∧
      world.Running s.m_targetProcessID [] [] Q := by
  obtain ⟨u, hu, hpipe⟩ := Option.bind_eq_some_iff.mp hanswer
  rcases h with ⟨v, hv, -, -, hempty, -⟩ | ⟨v, hv, -, -, hempty, -⟩ |
    ⟨v, hv, hpid, hpending, hresponse, hfact⟩
  · obtain rfl := Option.some.inj (hu.symm.trans hv)
    rw [hempty] at hpipe
    cases hpipe
  · obtain rfl := Option.some.inj (hu.symm.trans hv)
    rw [hempty] at hpipe
    cases hpipe
  · obtain rfl := Option.some.inj (hu.symm.trans hv)
    simp only [hresponse, if_pos] at hpipe
    obtain rfl := Option.some.inj hpipe
    exact ⟨_, rfl, _, rfl, hpid, hpending, rfl, hfact⟩

theorem forceRestart_iteration (s : TestExecutor) :
    (forceRestart s).m_iterationNumMod2 = s.m_iterationNumMod2 := by
  simp only [forceRestart]
  split_ifs <;> rfl

theorem okay_of_forceRestart {s : TestExecutor}
    (h : (forceRestart s).m_target_and_feeder_okay = true) :
    s.m_target_and_feeder_okay = true := by
  simp only [forceRestart] at h
  split_ifs at h
  · exact (Bool.and_eq_true _ _ ▸ h).1
  · exact h

/-- The file that is read is that of the dump, whether it can be removed or not. -/
theorem inv_readLog (removed : Bool) (hplace : s.place = .reading) (hinv : Inv s)
    (hunread : Unread s) : Inv (s.readLog removed) := by
  rw [Inv, hplace] at hinv
  rw [Unread, hplace] at hunread
  obtain ⟨hnone, hnil⟩ := hunread trivial
  rw [Executor.readLog]
  cases hfile : s.getDrCovOutputFile s.m_iterationNumMod2 with
  | none =>
    refine ⟨fun hclean => absurd hclean (by decide), fun file hread => ?_⟩
    rw [hnone] at hread
    cases hread
  | some file =>
    obtain ⟨target, htarget, hpid, hpending, hpipe, hdumped⟩ := hinv
    obtain ⟨blocks, rfl, hreported⟩ := hdumped.reported hfile
    have hrunning : s.world.Running s.m_targetProcessID [] [] (Reported s.m_modulesToCover
        s.testcase s.m_iterationNumMod2 (.completed blocks)
        (blocks.filter s.m_modulesToCover)) :=
      ⟨target, htarget, hpid, hpending, hpipe, hreported _⟩
    -- a removed file is one that vanishes
    have hvanish : s.world.happens (.vanishes s.m_targetProcessID s.m_iterationNumMod2) =
        some (s.world.setFile s.m_targetProcessID s.m_iterationNumMod2 none) := rfl
    refine ⟨fun _ => Option.some_ne_none _, fun file hread => ?_⟩
    obtain rfl := Option.some.inj hread
    simp only [hnil, List.nil_append]
    cases removed with
    | false => exact hrunning
    | true => exact hrunning.quiet (lasting_reported _ _ _ _ _) hvanish

theorem inv_next {step : Step Block} (hinv : Inv s) (hunread : Unread s)
    (h : next attach s step = some t) : Inv t := by
  cases stepCase h with
  | happens hworld => exact inv_happens hinv hworld
  | stops hplace hstopped =>
    rw [Inv, hplace]
    intro hokay
    rw [hstopped] at hokay
    cases hokay
  | reproduces hplace =>
    rcases hplace with hplace | hplace <;> rw [Inv, hplace] <;> trivial
  | goesOn hplace hokay =>
    rw [Inv, hplace] at hinv
    have hrunning := hinv (okay_of_forceRestart hokay)
    rw [← forceRestart_iteration] at hrunning
    exact hrunning
  | startsAnew => exact rfl
  | launches hplace =>
    rw [Inv, hplace] at hinv
    exact hinv
  | started pid hplace =>
    rw [Inv, hplace] at hinv
    have hiteration : s.m_iterationNumMod2 = 0 := hinv
    exact ⟨.start pid, rfl, rfl, rfl, rfl, hiteration⟩
  | resets hplace =>
    rw [Inv, hplace] at hinv
    exact waiting_nudge hinv
  | dumps hplace =>
    rw [Inv, hplace] at hinv
    exact waiting_nudge hinv
  | wasReset hplace hanswer =>
    rw [Inv, hplace] at hinv
    obtain ⟨world, rfl, hrunning⟩ := answer_cases hinv hanswer
    exact hrunning
  | wasDumped hplace hanswer =>
    rw [Inv, hplace] at hinv
    obtain ⟨world, rfl, hrunning⟩ := answer_cases hinv hanswer
    exact hrunning
  | feederDone hplace =>
    rw [Inv, hplace] at hinv
    exact hinv
  | fails _ hplace hnot =>
    refine ⟨fun hclean => absurd hclean hnot, fun file hfile => ?_⟩
    rw [(hunread hplace).1] at hfile
    cases hfile
  | readLog removed hplace => exact inv_readLog removed hplace hinv hunread
  | advances hplace =>
    -- only a target whose log file was read goes on
    rw [Inv, hplace] at hinv
    obtain ⟨file, hfile⟩ := Option.ne_none_iff_exists'.mp (hinv.1 rfl)
    exact fun _ => (hinv.2 file hfile).imp fun _ _ => Reported.atFile

theorem unread_of_place (h : s.place = .idle ∨ s.place = .restarting ∨ s.place = .reproducing) :
    Unread s := by
  intro hunread
  rcases h with h | h | h <;> rw [h] at hunread <;> exact hunread.elim

theorem unread_answer {expected : Char} {place : Place} (hnone : s.drcovOutput = none)
    (hnil : s.m_coveredBasicBlocks = []) (h : s.answer expected place = some t) : Unread t := by
  obtain ⟨u, -, hpipe⟩ := Option.bind_eq_some_iff.mp h
  split at hpipe
  · cases hpipe
  · obtain rfl := Option.some.inj hpipe
    exact fun _ => ⟨hnone, hnil⟩

/-- Nothing is read but by `readLog`, and what an earlier call has read is forgotten. -/
theorem unread_next {step : Step Block} (hunread : Unread s) (h : next attach s step = some t) :
    Unread t := by
  cases stepCase h with
  | happens => exact hunread
  | stops hplace => exact unread_of_place (.inl hplace)
  | reproduces hplace => exact unread_of_place (.inr hplace)
  | goesOn | startsAnew => exact fun _ => ⟨rfl, rfl⟩
  | launches hplace | started _ hplace | resets hplace | dumps hplace | feederDone hplace =>
    rw [Unread, hplace] at hunread
    exact fun _ => hunread trivial
  | wasReset hplace hanswer | wasDumped hplace hanswer =>
    rw [Unread, hplace] at hunread
    exact unread_answer (hunread trivial).1 (hunread trivial).2 hanswer
  | readLog =>
    rw [Executor.readLog]
    cases s.getDrCovOutputFile s.m_iterationNumMod2 with
    | none => exact fun hreturned => hreturned.elim
    | some file => cases file <;> exact fun hreturned => hreturned.elim
  | fails => exact fun hreturned => hreturned.elim
  | advances => exact unread_of_place (.inl rfl)

variable {modulesToCover : Block → Bool} {X : ℤ} {files : ℕ → LogFiles Block}
  {tr : List (Executor Block × Step Block)}

theorem inv_new : Inv (.new modulesToCover X files) := by
  intro hokay
  cases hokay

theorem inv_run (hrun : Run (next attach) (.new modulesToCover X files) tr s) : Inv s :=
  (hrun.invariant (I := fun s => Inv s ∧ Unread s) ⟨inv_new, unread_of_place (.inl rfl)⟩
    fun h hstep => ⟨inv_next h.1 h.2 hstep, unread_next h.2 hstep⟩).1

/-- The file has what the target covered between the reset and the dump for this very testcase,
that of it which is to be covered is in the result, and the dumps before that one were as many as
the number of the runner says, up to parity. -/
def OwnCoverage (s : Executor Block) (file : LogFile Block) : Prop :=
  ∃ (target : Target Block) (front : History Block) (blocks behind : List Block),
    s.world.target = some target ∧ target.pid = s.m_targetProcessID ∧
    target.history = front ++ .nudge NUDGE_DUMP_CURRENT_COVERAGE s.testcase ::
      behind.map TargetEvent.block ∧
    s.m_iterationNumMod2 % 2 = dumps front % 2 ∧
    (∃ before, front = before ++ .nudge NUDGE_RESET_COVERAGE s.testcase ::
      blocks.map TargetEvent.block) ∧
    file = .completed blocks ∧ s.m_coveredBasicBlocks = blocks.filter s.m_modulesToCover

/-- From the reading of a log file on, until the result of the testcase is classified. -/
theorem readLog_ownCoverage {okay : Bool} {terminationType : PROCESS_TERMINATION_TYPE}
    {file : LogFile Block} (hrun : Run (next attach) (.new modulesToCover X files) tr s)
    (hplace : s.place = .returned okay terminationType) (hfile : s.drcovOutput = some file) :
    OwnCoverage s file := by
  have hinv := inv_run hrun
  rw [Inv, hplace] at hinv
  obtain ⟨target, htarget, hpid, -, -, before, blocks, behind, hhistory, hnumber, hcontents⟩ :=
    hinv.2 file hfile
  refine ⟨target, before ++ .nudge NUDGE_RESET_COVERAGE s.testcase ::
    blocks.map TargetEvent.block, blocks, behind, htarget, hpid, ?_, ?_, ⟨before, rfl⟩, hcontents⟩
  · simp [hhistory]
  · rw [dumps_covering]
    omega

/-- A testcase that goes well until its log file is read. -/
def testcaseSteps (block : ℕ) : List (Step ℕ) :=
  [.execute, .nudge, .happens (.handles 0), .answer, .happens (.covers block),
    .feederAnswers SHARED_MEM_MESSAGE_FUZZ_DONE, .nudge, .happens (.handles 0), .answer]

/-- The first testcase in a new target, and the second one behind it. -/
def twoTestcases : List (Step ℕ) :=
  [.execute, .firstFileGone, .started 7 true] ++ (testcaseSteps 5).tail ++
    [.readLog true, .classified CLEAN (-1)] ++ testcaseSteps 6 ++ [.readLog true]

theorem readLog_ownCoverage_second :
    ∃ (tr : List (Executor ℕ × Step ℕ)) (s : Executor ℕ),
      Run (next false) (.new (fun block => block < 9) 0 fun _ _ => none) tr s ∧ s.testcase = 2 ∧
        s.m_iterationNumMod2 = 1 ∧ s.m_coveredBasicBlocks = [6] ∧
        OwnCoverage s (.completed [6]) := by
  have hexec : ∃ p, exec (next false) (.new (fun block => block < 9) 0 fun _ _ => none)
        twoTestcases = some p ∧
      p.2.testcase = 2 ∧ p.2.m_iterationNumMod2 = 1 ∧ p.2.m_coveredBasicBlocks = [6] ∧
      p.2.place = .returned true CLEAN ∧ p.2.drcovOutput = some (.completed [6]) :=
    ⟨_, rfl, rfl, rfl, rfl, rfl, rfl⟩
  obtain ⟨⟨tr, s⟩, hexec, htestcase, hnumber, hcovered, hplace, hread⟩ := hexec
  have hrun := run_of_exec hexec
  exact ⟨tr, s, hrun, htestcase, hnumber, hcovered, readLog_ownCoverage hrun hplace hread⟩

end Fluffi.Runner.DynRioMulti
