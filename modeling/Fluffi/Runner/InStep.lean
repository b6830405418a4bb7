import Fluffi.Runner.TestExecutor

/-! The executor and its feeder stay in step. The invariant: while
`m_target_and_feeder_okay` is set, nothing is on its way in the mailbox in use,
that mailbox was started after the last run that did not end cleanly, and all that
was sent to it was answered and ended well. -/

namespace Fluffi.Runner

open Shared SharedMem SharedMemMessageType PROCESS_TERMINATION_TYPE

/-- The mailboxes started, latest first. -/
def starts (log : List Event) : List ℕ :=
  log.filterMap fun e => match e with
    | .started box => some box
    | _ => none

/-- Going back in the log, the start of `box` comes before any unclean end. -/
def InUse (box : ℕ) : List Event → Prop
  | [] => False
  | .started started :: _ => started = box
  | .finished false :: _ => False
  | _ :: log => InUse box log

/-- Every filename was sent to the mailbox in use. -/
def SentInUse : List Event → Prop
  | [] => True
  | .sent _ _ box :: log => InUse box log ∧ SentInUse log
  | _ :: log => SentInUse log

/-- Going back in the log, what was sent before the start of `box` is not asked for. What was sent
since went to `box`, was answered `FUZZ_DONE`, and its run ended cleanly. -/
def AtRest (box : ℕ) (log : List Event) : Prop :=
  ∀ mid earlier sending testcaseId box',
    log = mid ++ .sent sending testcaseId box' :: earlier →
      .started box ∈ mid ∨ box' = box ∧ .finished true ∈ mid ∧
        ∃ answer, answer.messageType = SHARED_MEM_MESSAGE_FUZZ_DONE ∧
          .used sending testcaseId answer ∈ mid

/-- Every filename was sent to a mailbox at rest. -/
def SentAtRest : List Event → Prop
  | [] => True
  | .sent _ _ box :: log => AtRest box log ∧ SentAtRest log
  | _ :: log => SentAtRest log

/-- An answer belongs to the sending it was used for. -/
def Own : Event → Prop
  | .used sending testcaseId answer => answer.question = .FUZZ_FILENAME sending testcaseId
  | _ => True

structure InStep (okay : Bool) (feeders : Feeders) (log : List Event) : Prop where
  idle : okay = true → feeders.Idle
  inUse : okay = true → InUse feeders.m_sharedMemIPC_toFeeder log
  sent : SentInUse log
  own : ∀ e ∈ log, Own e
  started_le : ∀ box ∈ starts log, box ≤ feeders.m_sharedMemIPC_toFeeder
  started_lt : (starts log).Pairwise (· > ·)

namespace InStep

variable {okay : Bool} {feeders : Feeders} {log : List Event} {s : TestExecutor}

theorem weaken {okay' : Bool} (h : InStep okay feeders log) (hokay : okay' = true → okay = true) :
    InStep okay' feeders log :=
  ⟨fun h' => h.idle (hokay h'), fun h' => h.inUse (hokay h'), h.sent, h.own, h.started_le,
    h.started_lt⟩

theorem not_okay (h : InStep okay feeders log) : InStep false feeders log :=
  h.weaken (by simp)

theorem new (X : ℤ) : InStep false (TestExecutor.new X).feeders (TestExecutor.new X).log :=
  ⟨by simp, by simp, trivial, by simp [TestExecutor.new], by simp [TestExecutor.new, starts],
    by simp [TestExecutor.new, starts]⟩

theorem finish {clean : Bool} (h : InStep okay feeders log) (hclean : okay = true → clean = true) :
    InStep okay feeders (.finished clean :: log) := by
  refine ⟨h.idle, ?_, h.sent, ?_, h.started_le, h.started_lt⟩
  · intro hokay
    rw [hclean hokay]
    exact h.inUse hokay
  · rw [List.forall_mem_cons]
    exact ⟨trivial, h.own⟩

theorem start (h : InStep okay s.feeders s.log) (kind : Kind) (use_dyn_rio : Bool) (start : Start) :
    InStep (attemptStartTargetAndFeeder kind use_dyn_rio s start).1
      (attemptStartTargetAndFeeder kind use_dyn_rio s start).2.feeders
      (attemptStartTargetAndFeeder kind use_dyn_rio s start).2.log := by
  cases attemptStart_cases kind use_dyn_rio s start with
  | inl hfailed =>
    obtain ⟨hokay, hlog, hbox⟩ := hfailed
    rw [hokay, hlog]
    exact ⟨by simp, by simp, h.sent, h.own, fun box hb => (h.started_le box hb).trans hbox,
      h.started_lt⟩
  | inr hstarted =>
    obtain ⟨_, hidle, hbox, hlog⟩ := hstarted
    rw [hlog]
    refine ⟨fun _ => hidle, fun _ => ?_, h.sent, ?_, ?_, ?_⟩
    · rw [hbox]
      rfl
    · rw [List.forall_mem_cons]
      exact ⟨trivial, h.own⟩
    · intro box hb
      rw [hbox]
      cases List.mem_cons.mp hb with
      | inl hnew => omega
      | inr hold => exact (h.started_le box hold).trans (Nat.le_succ _)
    · refine List.pairwise_cons.mpr ⟨?_, h.started_lt⟩
      intro box hb
      exact Nat.lt_succ_of_le (h.started_le box hb)

/-- A run in a mailbox that was in step leaves it in step exactly if the flag stays. -/
theorem run (h : InStep true s.feeders s.log) (kind : Kind) (testcaseId : FluffiTestcaseID)
    (exResult : DebugExecutionOutput) (covMode : CoverageMode) (run : SingleRun) :
    let r := runSingleTestcase kind s testcaseId exResult covMode run
    InStep r.1.1 r.2.2.feeders r.2.2.log := by
  have hinUse := h.inUse rfl
  obtain ⟨hbox, hcases⟩ := runSingleTestcase_cases kind testcaseId exResult covMode run (h.idle rfl)
  intro r
  obtain ⟨hokay, _, hlog⟩ | ⟨hokay, _, hlog⟩ | ⟨answer, _, hquestion, hidle, _, hlog⟩ := hcases
  · refine ⟨by simp [r, hokay], by simp [r, hokay], ?_, ?_, ?_, ?_⟩
    all_goals simp only [r, hlog, hbox]
    · exact h.sent
    · exact List.forall_mem_cons.mpr ⟨trivial, h.own⟩
    · exact h.started_le
    · exact h.started_lt
  · refine ⟨by simp [r, hokay], by simp [r, hokay], ?_, ?_, ?_, ?_⟩
    all_goals simp only [r, hlog, hbox]
    · exact ⟨hinUse, h.sent⟩
    · exact List.forall_mem_cons.mpr ⟨trivial, List.forall_mem_cons.mpr ⟨trivial, h.own⟩⟩
    · exact h.started_le
    · exact h.started_lt
  · refine ⟨fun _ => hidle, fun _ => ?_, ?_, ?_, ?_, ?_⟩
    all_goals simp only [r, hlog, hbox]
    · exact hinUse
    · exact ⟨hinUse, h.sent⟩
    · exact List.forall_mem_cons.mpr ⟨hquestion, List.forall_mem_cons.mpr ⟨trivial,
        List.forall_mem_cons.mpr ⟨trivial, h.own⟩⟩⟩
    · exact h.started_le
    · exact h.started_lt

theorem reproduce (h : InStep okay s.feeders s.log) (kind : Kind) (e : Execution) :
    InStep false (Runner.reproduce kind s e).2.feeders (Runner.reproduce kind s e).2.log ∧
      (Runner.reproduce kind s e).2.m_target_and_feeder_okay = false := by
  have hstart := h.start kind false e.secondStart
  simp only [Runner.reproduce]
  split
  · exact ⟨hstart.not_okay, rfl⟩
  case isFalse hstarted =>
    have hok : (attemptStartTargetAndFeeder kind false s e.secondStart).1 = true := by
      simpa using hstarted
    rw [hok] at hstart
    have hrun := hstart.run kind e.testcaseId (withoutCoverage kind .default) .NONE e.secondRun
    split_ifs
    · exact ⟨hrun.not_okay, rfl⟩
    · exact ⟨hrun.not_okay, rfl⟩
    · exact ⟨hrun.not_okay, rfl⟩

end InStep

/-- If the flag is set after the classification, the feeder answered `FUZZ_DONE`
in time and the target still runs. -/
theorem classify_inStep {first : (Bool × DebugExecutionOutput) × Option Answer × TestExecutor}
    (h : InStep first.1.1 first.2.2.feeders first.2.2.log)
    (hdone : first.1.1 = true → first.1.2.m_terminationType = CLEAN →
      first.2.1.map Answer.messageType = some SHARED_MEM_MESSAGE_FUZZ_DONE)
    (kind : Kind) (e : Execution) :
    let r := (classify kind e first).2
    InStep r.2.m_target_and_feeder_okay r.2.feeders r.2.log ∧
      (r.2.m_target_and_feeder_okay = true → r.1 = true) := by
  have hsecond := InStep.reproduce
    (s := { first.2.2 with m_target_and_feeder_okay := first.1.1 }.ended false)
    (h.not_okay.finish (by simp)) kind e
  have hreproduced : ∀ r : TestExecutor, InStep false r.feeders r.log ∧
      r.m_target_and_feeder_okay = false →
      InStep r.m_target_and_feeder_okay r.feeders r.log ∧
        (r.m_target_and_feeder_okay = true → false = true) := by
    rintro r ⟨hr, hokay⟩
    rw [hokay]
    exact ⟨hr, id⟩
  simp only [classify]
  split
  · split
    · split
      case h_1 hclean => exact ⟨h, fun hokay => by simp [hdone hokay hclean]⟩
      case h_2 => exact ⟨h.not_okay, by simp⟩
    · exact hreproduced _ hsecond
  · exact hreproduced _ hsecond
  · exact hreproduced _ hsecond
  · exact ⟨h.not_okay, by simp⟩
  · exact ⟨h.not_okay, by simp⟩

theorem runAndClassify_inStep {s : TestExecutor} (h : InStep true s.feeders s.log) (kind : Kind)
    (e : Execution) (firstRun : Bool) :
    let r := (runAndClassify kind s e firstRun).2
    InStep r.2.m_target_and_feeder_okay r.2.feeders r.2.log ∧
      (r.2.m_target_and_feeder_okay = true → r.1 = true) := by
  apply classify_inStep (h.run _ _ _ _ _)
  intro hokay hclean
  obtain ⟨_, hcases⟩ := runSingleTestcase_cases kind e.testcaseId
    { DebugExecutionOutput.default with m_hasFullCoverage := hasFullCoverage kind e firstRun }
    (if hasFullCoverage kind e firstRun then .FULL else .PARTIAL) e.run (h.idle rfl)
  obtain ⟨hfalse, _⟩ | ⟨hfalse, _⟩ | ⟨answer, hsome, _, _, hdone, _⟩ := hcases
  · exact absurd hokay (by simp [hfalse])
  · exact absurd hokay (by simp [hfalse])
  · rw [hsome, Option.map_some, hdone hclean]

theorem forceRestart_inStep {s : TestExecutor}
    (h : InStep s.m_target_and_feeder_okay s.feeders s.log) :
    InStep (forceRestart s).m_target_and_feeder_okay (forceRestart s).feeders
      (forceRestart s).log := by
  simp only [forceRestart]
  split
  · apply h.weaken
    intro hokay
    exact (Bool.and_eq_true_iff.mp hokay).1
  · exact h

/-- One call of `execute` keeps executor and feeder in step. -/
theorem execute_inStep {s : TestExecutor}
    (h : InStep s.m_target_and_feeder_okay s.feeders s.log) (kind : Kind) (e : Execution) :
    InStep (execute kind s e).2.m_target_and_feeder_okay (execute kind s e).2.feeders
      (execute kind s e).2.log := by
  have hforced := forceRestart_inStep h
  simp only [execute]
  generalize forceRestart s = s at hforced ⊢
  split
  case isTrue hokay =>
    rw [hokay] at hforced
    have hr := runAndClassify_inStep hforced kind e false
    exact hr.1.finish hr.2
  case isFalse =>
    have hstart := hforced.start kind true e.start
    split
    case isTrue hfailed =>
      have hfalse : (attemptStartTargetAndFeeder kind true s e.start).1 = false := by
        simpa using hfailed
      rw [hfalse] at hstart ⊢
      exact hstart.finish (by simp)
    case isFalse hstarted =>
      have htrue : (attemptStartTargetAndFeeder kind true s e.start).1 = true := by
        simpa using hstarted
      rw [htrue] at hstart
      have hr := runAndClassify_inStep
        (s := { (attemptStartTargetAndFeeder kind true s e.start).2 with
          m_target_and_feeder_okay := (attemptStartTargetAndFeeder kind true s e.start).1 })
        hstart kind e true
      exact hr.1.finish hr.2

theorem afterCalls_inStep (kind : Kind) (X : ℤ) (calls : List Execution) :
    InStep (afterCalls kind X calls).m_target_and_feeder_okay (afterCalls kind X calls).feeders
      (afterCalls kind X calls).log := by
  induction calls using List.reverseRecOn with
  | nil => exact InStep.new X
  | append_singleton calls e ih =>
    rw [afterCalls_snoc]
    exact execute_inStep ih kind e

/-! ### Mailboxes at rest -/

section AtRest

variable {okay : Bool} {box : ℕ} {log : List Event} {s : TestExecutor}

theorem AtRest.nil : AtRest box [] := by
  intro mid earlier sending testcaseId box' h
  cases mid <;> cases h

theorem AtRest.started : AtRest box (.started box :: log) := by
  intro mid earlier sending testcaseId box' h
  cases mid with
  | nil => cases h
  | cons e mid =>
    obtain ⟨rfl, -⟩ := List.cons.inj h
    exact .inl List.mem_cons_self

theorem AtRest.cons {e : Event} (h : AtRest box log)
    (he : ∀ sending testcaseId box', e ≠ .sent sending testcaseId box') :
    AtRest box (e :: log) := by
  intro mid earlier sending testcaseId box' heq
  cases mid with
  | nil => exact absurd (List.cons.inj heq).1 (he sending testcaseId box')
  | cons e' mid =>
    rcases h mid earlier sending testcaseId box' (List.cons.inj heq).2 with
      hstarted | ⟨hbox, hclean, answer, hdone, hused⟩
    · exact .inl (List.mem_cons_of_mem e' hstarted)
    · exact .inr ⟨hbox, List.mem_cons_of_mem e' hclean, answer, hdone,
        List.mem_cons_of_mem e' hused⟩

/-- A run that ended well leaves its mailbox at rest. -/
theorem AtRest.finished {sending : ℕ} {testcaseId : FluffiTestcaseID} {answer : Answer}
    (h : AtRest box log) (hdone : answer.messageType = SHARED_MEM_MESSAGE_FUZZ_DONE) :
    AtRest box (.finished true :: .used sending testcaseId answer ::
      .sent sending testcaseId box :: log) := by
  intro mid earlier sending' testcaseId' box' heq
  match mid, heq with
  | [], heq => cases heq
  | [_], heq => cases heq
  | [_, _], heq =>
    obtain ⟨rfl, rfl, hsent, rfl⟩ : _ ∧ _ ∧ _ ∧ _ := by simpa using heq
    obtain ⟨rfl, rfl, rfl⟩ := hsent
    exact .inr ⟨rfl, by simp, answer, hdone, by simp⟩
  | _ :: _ :: _ :: mid, heq =>
    simp only [List.cons_append, List.cons.injEq] at heq
    rcases h mid earlier sending' testcaseId' box' heq.2.2.2 with
      hstarted | ⟨hbox, hclean, answer', hdone', hused⟩
    · exact .inl (by simp [hstarted])
    · exact .inr ⟨hbox, by simp [hclean], answer', hdone', by simp [hused]⟩

theorem sentAtRest_start (h : SentAtRest s.log) (kind : Kind) (use_dyn_rio : Bool) (start : Start) :
    let r := attemptStartTargetAndFeeder kind use_dyn_rio s start
    SentAtRest r.2.log ∧
      (r.1 = true → AtRest r.2.feeders.m_sharedMemIPC_toFeeder r.2.log) := by
  intro r
  cases attemptStart_cases kind use_dyn_rio s start with
  | inl hfailed =>
    obtain ⟨hokay, hlog, -⟩ := hfailed
    exact ⟨by rw [hlog]; exact h, fun hstarted => absurd hstarted (by rw [hokay]; decide)⟩
  | inr hstarted =>
    obtain ⟨-, -, hbox, hlog⟩ := hstarted
    refine ⟨by rw [hlog]; exact h, fun _ => ?_⟩
    rw [hlog, hbox]
    exact .started

theorem sentAtRest_run (hidle : s.feeders.Idle) (h : SentAtRest s.log)
    (hrest : AtRest s.feeders.m_sharedMemIPC_toFeeder s.log) (kind : Kind)
    (testcaseId : FluffiTestcaseID) (exResult : DebugExecutionOutput) (covMode : CoverageMode)
    (run : SingleRun) :
    let r := runSingleTestcase kind s testcaseId exResult covMode run
    SentAtRest r.2.2.log ∧ (r.1.1 = true → r.1.2.m_terminationType = CLEAN →
      AtRest r.2.2.feeders.m_sharedMemIPC_toFeeder (.finished true :: r.2.2.log)) := by
  obtain ⟨hbox, hcases⟩ := runSingleTestcase_cases kind testcaseId exResult covMode run hidle
  have hran : AtRest s.feeders.m_sharedMemIPC_toFeeder (.ran testcaseId :: s.log) :=
    hrest.cons (by simp)
  intro r
  obtain ⟨hokay, -, hlog⟩ | ⟨hokay, -, hlog⟩ | ⟨answer, -, -, -, hdone, hlog⟩ := hcases
  all_goals simp only [r, hlog, hbox]
  · exact ⟨h, fun htrue => absurd htrue (by rw [hokay]; decide)⟩
  · exact ⟨⟨hran, h⟩, fun htrue => absurd htrue (by rw [hokay]; decide)⟩
  · exact ⟨⟨hran, h⟩, fun _ hclean => hran.finished (hdone hclean)⟩

/-- The second run has a mailbox of its own. -/
theorem sentAtRest_reproduce (hstep : InStep okay s.feeders s.log) (h : SentAtRest s.log)
    (kind : Kind) (e : Execution) : SentAtRest (Runner.reproduce kind s e).2.log := by
  have hstart := hstep.start kind false e.secondStart
  obtain ⟨hsent, hrest⟩ := sentAtRest_start h kind false e.secondStart
  simp only [Runner.reproduce]
  split
  · exact hsent
  case isFalse hstarted =>
    have hok : (attemptStartTargetAndFeeder kind false s e.secondStart).1 = true := by
      simpa using hstarted
    have hrun := sentAtRest_run (hstart.idle hok) hsent (hrest hok) kind e.testcaseId
      (withoutCoverage kind .default) .NONE e.secondRun
    split_ifs
    · exact hrun.1
    · exact hrun.1
    · exact hrun.1

theorem sentAtRest_classify {first : (Bool × DebugExecutionOutput) × Option Answer × TestExecutor}
    (hstep : InStep first.1.1 first.2.2.feeders first.2.2.log) (h : SentAtRest first.2.2.log)
    (hrest : first.1.1 = true → first.1.2.m_terminationType = CLEAN →
      AtRest first.2.2.feeders.m_sharedMemIPC_toFeeder (.finished true :: first.2.2.log))
    (kind : Kind) (e : Execution) :
    let r := (classify kind e first).2
    SentAtRest r.2.log ∧ (r.2.m_target_and_feeder_okay = true →
      AtRest r.2.feeders.m_sharedMemIPC_toFeeder (.finished true :: r.2.log)) := by
  have hended : InStep false first.2.2.feeders (.finished false :: first.2.2.log) :=
    hstep.not_okay.finish (by simp)
  have hsecond := InStep.reproduce
    (s := { first.2.2 with m_target_and_feeder_okay := first.1.1 }.ended false) hended kind e
  have hreproduced : ∀ r : TestExecutor, SentAtRest r.log →
      r.m_target_and_feeder_okay = false → SentAtRest r.log ∧
        (r.m_target_and_feeder_okay = true →
          AtRest r.feeders.m_sharedMemIPC_toFeeder (.finished true :: r.log)) :=
    fun r hr hokay => ⟨hr, fun htrue => absurd htrue (by rw [hokay]; decide)⟩
  have hsentSecond := sentAtRest_reproduce
    (s := { first.2.2 with m_target_and_feeder_okay := first.1.1 }.ended false) hended h kind e
  simp only [classify]
  split
  · split
    · split
      case h_1 hclean => exact ⟨h, fun hokay => hrest hokay hclean⟩
      case h_2 => exact ⟨h, by simp⟩
    · exact hreproduced _ hsentSecond hsecond.2
  · exact hreproduced _ hsentSecond hsecond.2
  · exact hreproduced _ hsentSecond hsecond.2
  · exact ⟨h, by simp⟩
  · exact ⟨h, by simp⟩

theorem sentAtRest_runAndClassify (hstep : InStep true s.feeders s.log) (h : SentAtRest s.log)
    (hrest : AtRest s.feeders.m_sharedMemIPC_toFeeder s.log) (kind : Kind) (e : Execution)
    (firstRun : Bool) :
    let r := (runAndClassify kind s e firstRun).2
    SentAtRest r.2.log ∧ (r.2.m_target_and_feeder_okay = true →
      AtRest r.2.feeders.m_sharedMemIPC_toFeeder (.finished r.1 :: r.2.log)) := by
  have hrun := sentAtRest_run (hstep.idle rfl) h hrest kind e.testcaseId
    { DebugExecutionOutput.default with m_hasFullCoverage := hasFullCoverage kind e firstRun }
    (if hasFullCoverage kind e firstRun then .FULL else .PARTIAL) e.run
  have hclassified := sentAtRest_classify (hstep.run _ _ _ _ _) hrun.1 hrun.2 kind e
  refine ⟨hclassified.1, fun hokay => ?_⟩
  rw [(runAndClassify_inStep hstep kind e firstRun).2 hokay]
  exact hclassified.2 hokay

/-- One call of `execute` leaves a mailbox that it will use again at rest. -/
theorem execute_atRest (hstep : InStep s.m_target_and_feeder_okay s.feeders s.log)
    (h : SentAtRest s.log)
    (hrest : s.m_target_and_feeder_okay = true →
      AtRest s.feeders.m_sharedMemIPC_toFeeder s.log) (kind : Kind) (e : Execution) :
    let t := (execute kind s e).2
    SentAtRest t.log ∧ (t.m_target_and_feeder_okay = true →
      AtRest t.feeders.m_sharedMemIPC_toFeeder t.log) := by
  have hforced := forceRestart_inStep hstep
  have hsame : (forceRestart s).feeders = s.feeders ∧ (forceRestart s).log = s.log := by
    simp only [forceRestart]
    split <;> exact ⟨rfl, rfl⟩
  have hokayForced : (forceRestart s).m_target_and_feeder_okay = true →
      s.m_target_and_feeder_okay = true := by
    simp only [forceRestart]
    split
    · exact fun hokay => (Bool.and_eq_true_iff.mp hokay).1
    · exact id
  rw [← hsame.1, ← hsame.2] at hrest
  rw [← hsame.2] at h
  simp only [execute]
  generalize forceRestart s = s' at hforced h hrest hokayForced ⊢
  split
  case isTrue hokay =>
    rw [hokay] at hforced
    exact sentAtRest_runAndClassify hforced h (hrest (hokayForced hokay)) kind e false
  case isFalse =>
    have hstart := hforced.start kind true e.start
    obtain ⟨hsent, hrested⟩ := sentAtRest_start h kind true e.start
    split
    case isTrue hfailed =>
      have hfalse : (attemptStartTargetAndFeeder kind true s' e.start).1 = false := by
        simpa using hfailed
      exact ⟨hsent, fun hokay => absurd hokay (by simp [hfalse])⟩
    case isFalse hstarted =>
      have htrue : (attemptStartTargetAndFeeder kind true s' e.start).1 = true := by
        simpa using hstarted
      rw [htrue] at hstart
      exact sentAtRest_runAndClassify
        (s := { (attemptStartTargetAndFeeder kind true s' e.start).2 with
          m_target_and_feeder_okay := (attemptStartTargetAndFeeder kind true s' e.start).1 })
        hstart hsent (hrested htrue) kind e true

end AtRest

theorem afterCalls_atRest (kind : Kind) (X : ℤ) (calls : List Execution) :
    SentAtRest (afterCalls kind X calls).log ∧
      ((afterCalls kind X calls).m_target_and_feeder_okay = true →
        AtRest (afterCalls kind X calls).feeders.m_sharedMemIPC_toFeeder
          (afterCalls kind X calls).log) := by
  induction calls using List.reverseRecOn with
  | nil => exact ⟨trivial, fun _ => .nil⟩
  | append_singleton calls e ih =>
    rw [afterCalls_snoc]
    exact execute_atRest (afterCalls_inStep kind X calls) ih.1 ih.2 kind e

/-! ### Reading the log -/

theorem SentInUse.of_append {later log : List Event} (h : SentInUse (later ++ log)) :
    SentInUse log := by
  induction later with
  | nil => exact h
  | cons e later ih =>
    apply ih
    cases e with
    | sent => exact h.2
    | started | ran | used | finished => exact h

theorem SentAtRest.of_append {later log : List Event} (h : SentAtRest (later ++ log)) :
    SentAtRest log := by
  induction later with
  | nil => exact h
  | cons e later ih =>
    apply ih
    cases e with
    | sent => exact h.2
    | started | ran | used | finished => exact h

theorem InUse.started_mem {box : ℕ} {mid earlier : List Event}
    (h : InUse box (mid ++ .finished false :: earlier)) : .started box ∈ mid := by
  induction mid with
  | nil => exact absurd h (by simp [InUse])
  | cons e mid ih =>
    cases e with
    | started started =>
      obtain rfl : started = box := h
      exact List.mem_cons_self
    | finished clean =>
      cases clean with
      | false => exact absurd h (by simp [InUse])
      | true => exact List.mem_cons_of_mem _ (ih h)
    | ran | sent | used => exact List.mem_cons_of_mem _ (ih h)

theorem mem_starts {box : ℕ} {log : List Event} : box ∈ starts log ↔ .started box ∈ log := by
  simp only [starts, List.mem_filterMap]
  constructor
  · rintro ⟨e, he, hbox⟩
    cases e with
    | started started =>
      obtain rfl : started = box := Option.some.inj hbox
      exact he
    | ran | sent | used | finished => cases hbox
  · intro h
    exact ⟨_, h, rfl⟩

/-- In every run, with every delay of the feeders: an answer is only used for the
sending it answers. Between the unclean end of a run, the first run of a testcase
that crashed included, and the next filename lies the start of the very mailbox the
filename goes to, a new one. Between any two filenames lies such a start, or the
first one went to the same mailbox, was answered `FUZZ_DONE`, and ended cleanly. -/
theorem feeder_in_step (kind : Kind) (X : ℤ) (calls : List Execution) :
    (∀ sending testcaseId answer,
        .used sending testcaseId answer ∈ (afterCalls kind X calls).log →
          answer.question = .FUZZ_FILENAME sending testcaseId) ∧
      (∀ later mid earlier sending testcaseId box,
        (afterCalls kind X calls).log =
            later ++ .sent sending testcaseId box :: (mid ++ .finished false :: earlier) →
          .started box ∈ mid ∧ .started box ∉ earlier) ∧
      ∀ later mid earlier sending testcaseId box sending' testcaseId' box',
        (afterCalls kind X calls).log = later ++ .sent sending testcaseId box ::
            (mid ++ .sent sending' testcaseId' box' :: earlier) →
          .started box ∈ mid ∨ box' = box ∧ .finished true ∈ mid ∧
            ∃ answer, answer.messageType = SHARED_MEM_MESSAGE_FUZZ_DONE ∧
              .used sending' testcaseId' answer ∈ mid := by
  have h := afterCalls_inStep kind X calls
  refine ⟨?_, ?_, ?_⟩
  · intro sending testcaseId answer hused
    exact h.own _ hused
  · intro later mid earlier sending testcaseId box hlog
    have hsent := h.sent
    have hlt := h.started_lt
    rw [hlog] at hsent hlt
    have hmid : .started box ∈ mid := hsent.of_append.1.started_mem
    refine ⟨hmid, fun hearlier => ?_⟩
    have hstarts : starts (later ++ .sent sending testcaseId box ::
        (mid ++ .finished false :: earlier)) = starts later ++ (starts mid ++ starts earlier) := by
      simp [starts]
    rw [hstarts] at hlt
    have hpair := (List.pairwise_append.mp (List.pairwise_append.mp hlt).2.1).2.2
    exact absurd (hpair box (mem_starts.mpr hmid) box (mem_starts.mpr hearlier)) (lt_irrefl box)
  · intro later mid earlier sending testcaseId box sending' testcaseId' box' hlog
    have hsent := (afterCalls_atRest kind X calls).1
    rw [hlog] at hsent
    exact hsent.of_append.1 mid earlier sending' testcaseId' box' rfl

end Fluffi.Runner
