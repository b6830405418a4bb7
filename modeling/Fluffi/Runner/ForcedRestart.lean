import Fluffi.Runner.TestExecutor

/-! How many testcases run between two starts of target and feeder when
`m_forceRestartAfterXTCs` is set. The counter starts at zero after the start has
run its first testcase, it is compared before it is incremented, and the
comparison is strict: a stretch can reach two testcases more than the option says,
and never more than that. -/

namespace Fluffi.Runner

open Shared SharedMem

/-- The testcases run since the latest start. -/
def sinceStart : List Event → ℕ
  | [] => 0
  | .started _ :: _ => 0
  | .ran _ :: log => sinceStart log + 1
  | _ :: log => sinceStart log

/-- At no time more than `n` testcases had run since the latest start. -/
def AtMost (n : ℤ) (log : List Event) : Prop := ∀ past, past <:+ log → (sinceStart past : ℤ) ≤ n

variable {n X : ℤ} {kind : Kind} {s : TestExecutor} {log : List Event}

theorem AtMost.now (h : AtMost n log) : (sinceStart log : ℤ) ≤ n := h log (List.suffix_refl log)

theorem atMost_cons {e : Event} :
    AtMost n (e :: log) ↔ (sinceStart (e :: log) : ℤ) ≤ n ∧ AtMost n log := by
  simp only [AtMost, List.suffix_cons_iff, forall_eq_or_imp]

theorem atMost_ran {testcaseId : FluffiTestcaseID} :
    AtMost n (.ran testcaseId :: log) ↔ AtMost n log ∧ (sinceStart log : ℤ) + 1 ≤ n := by
  rw [atMost_cons, and_comm]
  simp [sinceStart]

theorem atMost_sent {sending box : ℕ} {testcaseId : FluffiTestcaseID} :
    AtMost n (.sent sending testcaseId box :: log) ↔ AtMost n log := by
  rw [atMost_cons]
  exact ⟨And.right, fun h => ⟨h.now, h⟩⟩

theorem atMost_used {sending : ℕ} {testcaseId : FluffiTestcaseID} {answer : Answer} :
    AtMost n (.used sending testcaseId answer :: log) ↔ AtMost n log := by
  rw [atMost_cons]
  exact ⟨And.right, fun h => ⟨h.now, h⟩⟩

theorem atMost_finished {clean : Bool} : AtMost n (.finished clean :: log) ↔ AtMost n log := by
  rw [atMost_cons]
  exact ⟨And.right, fun h => ⟨h.now, h⟩⟩

/-! ### What the parts of a call add -/

/-- A start that succeeds begins a new stretch. -/
theorem start_counts (hn : 0 ≤ n) (kind : Kind) (use_dyn_rio : Bool) (s : TestExecutor)
    (start : Start) :
    let r := attemptStartTargetAndFeeder kind use_dyn_rio s start
    (AtMost n r.2.log ↔ AtMost n s.log) ∧ (r.1 = true → sinceStart r.2.log = 0) := by
  cases attemptStart_cases kind use_dyn_rio s start with
  | inl hfailed => exact ⟨by rw [hfailed.2.1], by simp [hfailed.1]⟩
  | inr hstarted =>
    obtain ⟨_, _, _, hlog⟩ := hstarted
    simp only [hlog]
    refine ⟨?_, fun _ => rfl⟩
    rw [atMost_cons]
    exact ⟨And.right, fun h => ⟨hn, h⟩⟩

/-- A run adds one testcase, whatever comes of it. -/
theorem run_counts (kind : Kind) (s : TestExecutor) (testcaseId : FluffiTestcaseID)
    (exResult : DebugExecutionOutput) (covMode : CoverageMode) (run : SingleRun) :
    let r := runSingleTestcase kind s testcaseId exResult covMode run
    (AtMost n r.2.2.log ↔ AtMost n s.log ∧ (sinceStart s.log : ℤ) + 1 ≤ n) ∧
      sinceStart r.2.2.log = sinceStart s.log + 1 ∧
      r.2.2.m_executionsSinceLastRestart = s.m_executionsSinceLastRestart ∧
      r.2.2.m_forceRestartAfterXTCs = s.m_forceRestartAfterXTCs := by
  simp only [runSingleTestcase]
  split
  · exact ⟨atMost_ran, rfl, rfl, rfl⟩
  · split_ifs
    · exact ⟨atMost_ran, rfl, rfl, rfl⟩
    all_goals
      generalize Feeders.waitForNewMessageToServer _ _ = response
      cases response.2.1 with
      | none => exact ⟨atMost_sent.trans atMost_ran, rfl, rfl, rfl⟩
      | some answer => exact ⟨atMost_used.trans (atMost_sent.trans atMost_ran), rfl, rfl, rfl⟩

theorem reproduce_counts (hn : 1 ≤ n) (kind : Kind) (s : TestExecutor) (e : Execution) :
    let r := (reproduce kind s e).2
    (AtMost n r.log ↔ AtMost n s.log) ∧ r.m_target_and_feeder_okay = false ∧
      r.m_forceRestartAfterXTCs = s.m_forceRestartAfterXTCs := by
  have hstart := start_counts (by omega) kind false s e.secondStart (n := n)
  simp only [reproduce]
  split
  · exact ⟨hstart.1, rfl, attemptStart_force⟩
  case isFalse hstarted =>
    have hzero := hstart.2 (by simpa using hstarted)
    have hrun := run_counts kind (attemptStartTargetAndFeeder kind false s e.secondStart).2
      e.testcaseId (withoutCoverage kind .default) .NONE e.secondRun (n := n)
    rw [hzero, hstart.1, attemptStart_force] at hrun
    have hlog := hrun.1.trans (and_iff_left (by simpa using hn))
    split_ifs
    · exact ⟨hlog, rfl, hrun.2.2.2⟩
    · exact ⟨hlog, rfl, hrun.2.2.2⟩
    · exact ⟨hlog, rfl, hrun.2.2.2⟩

/-- What a call adds to a stretch, and that a flag still set means nothing was restarted. -/
theorem classify_counts (hn : 1 ≤ n) (kind : Kind) (e : Execution)
    (first : (Bool × DebugExecutionOutput) × Option Answer × TestExecutor) :
    let r := (classify kind e first).2.2
    (AtMost n r.log ↔ AtMost n first.2.2.log) ∧
      r.m_forceRestartAfterXTCs = first.2.2.m_forceRestartAfterXTCs ∧
      (r.m_target_and_feeder_okay = true → r.log = first.2.2.log ∧
        r.m_executionsSinceLastRestart = first.2.2.m_executionsSinceLastRestart) := by
  have hsecond := reproduce_counts hn kind
    ({ first.2.2 with m_target_and_feeder_okay := first.1.1 }.ended false) e
  obtain ⟨hlog, hokay, hforce⟩ := hsecond
  replace hlog := hlog.trans atMost_finished
  simp only [classify]
  split
  · split
    · split
      · exact ⟨Iff.rfl, rfl, fun _ => ⟨rfl, rfl⟩⟩
      · exact ⟨Iff.rfl, rfl, by simp⟩
    · exact ⟨hlog, hforce, by simp [hokay]⟩
  · exact ⟨hlog, hforce, by simp [hokay]⟩
  · exact ⟨hlog, hforce, by simp [hokay]⟩
  · exact ⟨Iff.rfl, rfl, by simp⟩
  · exact ⟨Iff.rfl, rfl, by simp⟩

theorem runAndClassify_counts (hn : 1 ≤ n) (kind : Kind) (s : TestExecutor) (e : Execution)
    (firstRun : Bool) :
    let r := (runAndClassify kind s e firstRun).2.2
    (AtMost n r.log ↔ AtMost n s.log ∧ (sinceStart s.log : ℤ) + 1 ≤ n) ∧
      r.m_forceRestartAfterXTCs = s.m_forceRestartAfterXTCs ∧
      (r.m_target_and_feeder_okay = true → sinceStart r.log = sinceStart s.log + 1 ∧
        r.m_executionsSinceLastRestart = s.m_executionsSinceLastRestart) := by
  have hrun := run_counts kind s e.testcaseId
    { DebugExecutionOutput.default with m_hasFullCoverage := hasFullCoverage kind e firstRun }
    (if hasFullCoverage kind e firstRun then .FULL else .PARTIAL) e.run (n := n)
  obtain ⟨hlog, hsince, hcounter, hforce⟩ := hrun
  have hclassified := classify_counts hn kind e (runSingleTestcase kind s e.testcaseId
    { DebugExecutionOutput.default with m_hasFullCoverage := hasFullCoverage kind e firstRun }
    (if hasFullCoverage kind e firstRun then .FULL else .PARTIAL) e.run)
  obtain ⟨hlog', hforce', hokay⟩ := hclassified
  refine ⟨hlog'.trans hlog, hforce'.trans hforce, ?_⟩
  intro h
  obtain ⟨hsame, hcounter'⟩ := hokay h
  constructor
  · rw [← hsince]
    exact congrArg sinceStart hsame
  · exact hcounter'.trans hcounter

/-! ### One call -/

/-- While the flag is set, the counter is one behind the testcases since the start. -/
structure Counted (X : ℤ) (s : TestExecutor) : Prop where
  force : s.m_forceRestartAfterXTCs = X
  counter : s.m_target_and_feeder_okay = true →
    (sinceStart s.log : ℤ) = s.m_executionsSinceLastRestart + 1

/-- Whether this call runs its testcase without a restart. -/
def GoesOn (s : TestExecutor) : Prop :=
  s.m_target_and_feeder_okay = true ∧ s.m_executionsSinceLastRestart ≤ s.m_forceRestartAfterXTCs

theorem execute_counts (hX : 0 < X) (hn : 1 ≤ n) (h : Counted X s) (kind : Kind) (e : Execution) :
    Counted X (execute kind s e).2 ∧
      (AtMost n (execute kind s e).2.log ↔
        AtMost n s.log ∧ (GoesOn s → s.m_executionsSinceLastRestart + 2 ≤ n)) := by
  have hforced : forceRestart s = { s with
      m_executionsSinceLastRestart := s.m_executionsSinceLastRestart + 1
      m_target_and_feeder_okay := s.m_target_and_feeder_okay &&
        !decide (s.m_executionsSinceLastRestart > s.m_forceRestartAfterXTCs) } := by
    rw [forceRestart, if_pos (by rw [h.force]; exact hX)]
  by_cases hgoes : GoesOn s
  · have hokay : (forceRestart s).m_target_and_feeder_okay = true := by
      simp only [hforced, hgoes.1, Bool.true_and, Bool.not_eq_true', decide_eq_false_iff_not]
      exact not_lt.mpr hgoes.2
    have hcounted := runAndClassify_counts hn kind (forceRestart s) e false
    have hexec : execute kind s e = ((runAndClassify kind (forceRestart s) e false).1,
        { (runAndClassify kind (forceRestart s) e false).2.2 with
          log := .finished (runAndClassify kind (forceRestart s) e false).2.1 ::
            (runAndClassify kind (forceRestart s) e false).2.2.log }) := by
      simp only [execute]
      rw [if_pos hokay]
    have hsince := h.counter hgoes.1
    rw [hexec]
    obtain ⟨hlog, hforce, hset⟩ := hcounted
    refine ⟨⟨?_, ?_⟩, ?_⟩
    · rw [hforce, hforced]
      exact h.force
    · intro hstill
      obtain ⟨hnext, hcounter⟩ := hset hstill
      rw [hforced] at hnext hcounter ⊢
      show (sinceStart (runAndClassify kind _ e false).2.2.log : ℤ) = _ + 1
      rw [hnext, hcounter]
      push_cast
      omega
    · rw [atMost_finished, hlog, hforced]
      refine and_congr_right fun _ => ?_
      rw [hsince]
      exact ⟨fun hle _ => by omega, fun hle => by have := hle hgoes; omega⟩
  · have hokay : ¬ (forceRestart s).m_target_and_feeder_okay = true := by
      simp only [hforced, Bool.and_eq_true, Bool.not_eq_true', decide_eq_false_iff_not, not_lt]
      exact hgoes
    have hstart := start_counts (by omega) kind true (forceRestart s) e.start (n := n)
    have hlog₀ : (forceRestart s).log = s.log := by rw [hforced]
    have hforce₀ : (forceRestart s).m_forceRestartAfterXTCs = X := by rw [hforced]; exact h.force
    rw [hlog₀] at hstart
    rw [iff_true_intro (show GoesOn s → s.m_executionsSinceLastRestart + 2 ≤ n from
      fun hg => absurd hg hgoes), and_true]
    simp only [execute]
    rw [if_neg hokay]
    split
    case isTrue hfailed =>
      have hfalse : (attemptStartTargetAndFeeder kind true (forceRestart s) e.start).1 = false := by
        simpa using hfailed
      refine ⟨⟨attemptStart_force.trans hforce₀, ?_⟩, atMost_finished.trans hstart.1⟩
      intro hset
      exact absurd (hfalse.symm.trans hset) (by decide)
    case isFalse hstarted =>
      have hzero := hstart.2 (by simpa using hstarted)
      have hcounted := runAndClassify_counts hn kind
        { (attemptStartTargetAndFeeder kind true (forceRestart s) e.start).2 with
          m_target_and_feeder_okay :=
            (attemptStartTargetAndFeeder kind true (forceRestart s) e.start).1 } e true
      obtain ⟨hlog, hforce, hset⟩ := hcounted
      refine ⟨⟨?_, ?_⟩, ?_⟩
      · exact hforce.trans (attemptStart_force.trans hforce₀)
      · intro hstill
        obtain ⟨hnext, hcounter⟩ := hset hstill
        show (sinceStart (runAndClassify kind _ e true).2.2.log : ℤ) = _ + 1
        rw [hnext, hcounter, hzero, attemptStart_counter]
        rfl
      · rw [atMost_finished, hlog, hstart.1, hzero]
        exact and_iff_left (by simpa using hn)

/-! ### Whole runs -/

theorem counted_new (X : ℤ) : Counted X (.new X) := ⟨rfl, by simp [TestExecutor.new]⟩

theorem afterCalls_counts (hX : 0 < X) (hn : 1 ≤ n) (kind : Kind) (calls : List Execution) :
    Counted X (afterCalls kind X calls) ∧
      (AtMost n (afterCalls kind X calls).log ↔
        ∀ before e after, calls = before ++ e :: after → GoesOn (afterCalls kind X before) →
          (afterCalls kind X before).m_executionsSinceLastRestart + 2 ≤ n) := by
  induction calls using List.reverseRecOn with
  | nil =>
    refine ⟨counted_new X, ?_⟩
    constructor
    · intro _ before e after hcalls
      simp at hcalls
    · intro _ past hpast
      obtain rfl := List.suffix_nil.mp hpast
      simp only [sinceStart, Nat.cast_zero]
      omega
  | append_singleton calls e ih =>
    obtain ⟨hcounted, hlog⟩ := ih
    have hstep := execute_counts hX hn hcounted kind e
    rw [afterCalls_snoc]
    refine ⟨hstep.1, ?_⟩
    rw [hstep.2, hlog]
    constructor
    · rintro ⟨hpast, hlast⟩ before e' after hcalls
      cases after using List.reverseRecOn with
      | nil =>
        obtain ⟨rfl, _⟩ := List.append_inj' hcalls rfl
        exact hlast
      | append_singleton after e'' =>
        rw [← List.cons_append, ← List.append_assoc] at hcalls
        obtain ⟨rfl, _⟩ := List.append_inj' hcalls rfl
        exact hpast before e' after rfl
    · intro h
      constructor
      · rintro before e' after rfl
        exact h before e' (after ++ [e]) (by simp)
      · exact h calls e [] rfl

/-- Two more testcases than the option says is the most that ever runs between two starts. -/
theorem atMost_two_more (hX : 0 < X) (kind : Kind) (calls : List Execution) :
    AtMost (X + 2) (afterCalls kind X calls).log := by
  rw [(afterCalls_counts hX (by omega) kind calls).2]
  intro before e after _ hgoes
  have hforce := (afterCalls_counts hX (by omega) kind before (n := X + 2)).1.force
  have hcounter := hgoes.2
  rw [hforce] at hcounter
  omega

/-- The option is kept exactly as long as no call finds the flag still set when
the counter is `X - 1` or `X`. -/
theorem forced_restart_iff (kind : Kind) (X : ℤ) (hX : 0 < X) (calls : List Execution) :
    AtMost X (afterCalls kind X calls).log ↔
      ∀ before e after, calls = before ++ e :: after →
        ¬ ((afterCalls kind X before).m_target_and_feeder_okay = true ∧
          ((afterCalls kind X before).m_executionsSinceLastRestart = X - 1 ∨
            (afterCalls kind X before).m_executionsSinceLastRestart = X)) := by
  rw [(afterCalls_counts hX (by omega) kind calls).2]
  have hforce : ∀ before, (afterCalls kind X before).m_forceRestartAfterXTCs = X := fun before =>
    (afterCalls_counts hX (by omega) kind before (n := X)).1.force
  constructor
  · rintro h before e after hcalls ⟨hokay, hcounter⟩
    have hgoes : GoesOn (afterCalls kind X before) := ⟨hokay, by rw [hforce]; omega⟩
    have hle := h before e after hcalls hgoes
    omega
  · intro h before e after hcalls hgoes
    have hcounter := hgoes.2
    rw [hforce] at hcounter
    have hnot := h before e after hcalls
    by_contra hlarge
    exact hnot ⟨hgoes.1, by omega⟩

/-- The target and the feeder start at once, and the feeder answers `FUZZ_DONE`
at once, in the mailbox with this number. -/
def cleanExecution (box : ℕ) : Execution where
  testcaseId := ⟨⟨"", "tg"⟩, 1⟩
  forceFullCoverage := false
  start := ⟨⟨true, true, true, true, true, true, true, true, true⟩,
    ⟨true, true, true, true, [(box, .take),
      (box, .answer .SHARED_MEM_MESSAGE_READY_TO_FUZZ)], [], true⟩⟩
  run := ⟨true, true, true, 0, 'R', true, 0, 'D', true, "drcov.log", 1, 4711, [], true,
    [(box, .take), (box, .answer .SHARED_MEM_MESSAGE_FUZZ_DONE)], ⟨[], some false⟩⟩
  view := ⟨{ DebugExecutionOutput.default with m_terminationType := .CLEAN }, -1⟩
  originalCrashType := .CLEAN
  secondStart := ⟨⟨true, true, true, true, true, true, true, true, true⟩,
    ⟨true, true, true, true, [], [], true⟩⟩
  secondRun := ⟨true, true, true, 0, 'R', true, 0, 'D', true, "drcov.log", 1, 4711, [], true,
    [], ⟨[], some false⟩⟩
  terminated := ⟨.default, -1⟩
  reproduced := ⟨.default, -1⟩

/-- With the option at one, a single testcase is within it. -/
theorem forced_restart_single : AtMost 1 (afterCalls .GDB 1 [cleanExecution 1]).log := by
  rw [forced_restart_iff .GDB 1 (by decide) [cleanExecution 1]]
  intro before e after hcalls
  cases before with
  | nil => simp [afterCalls, TestExecutor.new]
  | cons => simp at hcalls

/-- With the option at one, three testcases run between the first start and the second. -/
theorem three_testcases_at_one :
    ¬ AtMost 1 (afterCalls .GDB 1 [cleanExecution 1, cleanExecution 1, cleanExecution 1,
        cleanExecution 2]).log ∧
      ¬ AtMost 1 (afterCalls (.DynRioMulti false) 1
        [cleanExecution 1, cleanExecution 1, cleanExecution 1, cleanExecution 2]).log := by
  constructor
  · intro h
    exact absurd (h _ (List.drop_suffix 5 _)) (by decide +kernel)
  · intro h
    exact absurd (h _ (List.drop_suffix 5 _)) (by decide +kernel)

end Fluffi.Runner
