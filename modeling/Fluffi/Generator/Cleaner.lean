import Fluffi.Systems.Run
import Fluffi.Generator.Manager

/-! The testcase generator as a system of threads: the queue filler pushes new
testcases, request handlers pop them for runners, and the queue cleaner repeats
its round (remove what was completed, report what was sent too often, reinsert
what has no answer) over a clock that never goes back. Marks number the testcases
as they are generated and stay with them when a failed report pushes a testcase
back. -/

namespace Fluffi.Generator

open Shared Systems TestcaseDescriptor

/-- The constructor arguments of a newly generated testcase. -/
structure NewTestcase where
  id : FluffiTestcaseID
  parentId : FluffiTestcaseID
  pathAndFileName : String
  forceFullCoverage : Bool
  deriving DecidableEq, Repr

/-- Where the loop body of `QueueCleanerWorker::workerMain` stands. -/
inductive CleanerPhase
  | removeCompleted | handOut | report
  deriving DecidableEq, Repr

structure CleanerConfig where
  m_maxRetriesBeforeReport : ℤ
  m_intervallToWaitForReinsertionInMillisec : ℤ

structure TGState where
  now : ℤ
  manager : TGTestcaseManager ℕ
  nextMark : ℕ
  phase : CleanerPhase
  testcasesThatNeedToBeReported : List (TestcaseDescriptor ℕ)
  markedForDeletion : List String
  deriving DecidableEq, Repr

inductive TGEvent
  /-- Time passes. -/
  | tick (elapsed : ℕ)
  /-- `QueueFillerWorker` pushes newly generated testcases. -/
  | generate (newTestcases : List NewTestcase)
  /-- `GetTestcaseRequestHandler` pops a testcase for a runner. -/
  | pop
  /-- `removeCompletedTestcases`: the IDs of the response, or a failed request. -/
  | removeCompleted (response : Option (List FluffiTestcaseID))
  /-- The call of `handMeAllTestcasesWithTooManyRetries` that starts
  `reportTestcasesWithMultipleNoResponse`. -/
  | handOut
  /-- One turn of its loop; the flag is the result of the request. -/
  | report (success : Bool)
  /-- `reinsertTestcasesWithNoResponse` with the clock it read, or its early
  return when the configuration request is not answered. -/
  | reinsert (clock : Option ℤ)
  deriving DecidableEq, Repr

namespace TGState

/-- The generator as it starts. -/
def init (now : ℤ) : TGState := ⟨now, .empty, 0, .removeCompleted, [], []⟩

def construct (n : ℕ) (ts : List NewTestcase) : List (TestcaseDescriptor ℕ) :=
  (ts.zipIdx n).map fun p =>
    .new p.1.id p.1.parentId p.1.pathAndFileName p.1.forceFullCoverage p.2

def next (cfg : CleanerConfig) (s : TGState) : TGEvent → Option TGState
  | .tick elapsed => some { s with now := s.now + elapsed }
  | .generate ts => some { s with
      manager := s.manager.pushNewGeneratedTestcases (construct s.nextMark ts)
      nextMark := s.nextMark + ts.length }
  | .pop =>
    match s.manager.popPendingTCForProcessing s.now with
    | .ok (_, m) => some { s with manager := m }
    | .error _ => some s
  | .removeCompleted response =>
    if s.phase = .removeCompleted then
      match response with
      | some ids =>
        let (gone, m) := s.manager.removeEvaluatedTestcases ids
        some { s with
          manager := m
          phase := .handOut
          markedForDeletion := s.markedForDeletion ++ gone.map deleteFile }
      | none => some { s with phase := .handOut }
    else none
  | .handOut =>
    if s.phase = .handOut then
      let (gone, m) :=
        s.manager.handMeAllTestcasesWithTooManyRetries cfg.m_maxRetriesBeforeReport
      some { s with manager := m, phase := .report, testcasesThatNeedToBeReported := gone }
    else none
  | .report success =>
    if s.phase = .report then
      match s.testcasesThatNeedToBeReported.getLast? with
      | some tcToReport =>
        let rest := s.testcasesThatNeedToBeReported.dropLast
        if success then
          some { s with
            testcasesThatNeedToBeReported := rest
            markedForDeletion := s.markedForDeletion ++ [tcToReport.deleteFile] }
        else
          -- try again later
          some { s with
            manager := s.manager.pushNewGeneratedTestcase tcToReport
            testcasesThatNeedToBeReported := rest }
      | none => none
    else none
  | .reinsert clock =>
    if s.phase = .report ∧ s.testcasesThatNeedToBeReported = [] then
      match clock with
      | some t =>
        if t ≤ s.now then
          some { s with
            manager := s.manager.reinsertTestcasesHavingNoAnswerSince
              (t - cfg.m_intervallToWaitForReinsertionInMillisec)
            phase := .removeCompleted }
        else none
      | none => some { s with phase := .removeCompleted }
    else none

/-- The testcases that wait outside the sent set: queued ones and those about to
be reported. -/
def resting (s : TGState) : List (TestcaseDescriptor ℕ) :=
  s.manager.m_pendingTestcaseQueue ++ s.testcasesThatNeedToBeReported

def sent (s : TGState) : List (TestcaseDescriptor ℕ) :=
  s.manager.m_sentButNotEvaluatedTestcaseSet

end TGState

open TGState

/-! ### What a step shows -/

/-- The step hands the testcase with mark `n` to a runner. -/
def sends (n : ℕ) : TGState × TGEvent → Bool
  | (s, .pop) => s.manager.m_pendingTestcaseQueue.head?.any (·.mark = n)
  | _ => false

/-- The step delivers the completion of `id` to `removeEvaluatedTestcases`. -/
def delivers (id : FluffiTestcaseID) : TGState × TGEvent → Bool
  | (_, .removeCompleted (some ids)) => ids.any (· == id)
  | _ => false

theorem sends_eq_false {n : ℕ} {s : TGState} {e : TGEvent} (he : e ≠ .pop) :
    sends n (s, e) = false := by
  cases e <;> simp_all [sends]

theorem sends_pop {n : ℕ} {s : TGState} {front : TestcaseDescriptor ℕ}
    {rest : List (TestcaseDescriptor ℕ)} (hp : s.manager.m_pendingTestcaseQueue = front :: rest) :
    sends n (s, .pop) = true ↔ front.mark = n := by
  simp [sends, hp]

theorem sends_pop_nil {n : ℕ} {s : TGState} (hp : s.manager.m_pendingTestcaseQueue = []) :
    sends n (s, .pop) = false := by
  simp [sends, hp]

/-! ### What a step can do -/

section Steps

variable {cfg : CleanerConfig} {s t : TGState} {e : TGEvent}

/-- A poll at the generator: what was completed leaves the sent set, the rest of
the testcases stay where they are. -/
theorem removeCompleted_eq {r : Option (List FluffiTestcaseID)}
    (hs : s.next cfg (.removeCompleted r) = some t) :
    s.phase = .removeCompleted ∧ t.now = s.now ∧ t.nextMark = s.nextMark ∧
      t.manager.m_pendingTestcaseQueue = s.manager.m_pendingTestcaseQueue ∧
      t.testcasesThatNeedToBeReported = s.testcasesThatNeedToBeReported ∧
      t.sent = s.sent.filter (!TGTestcaseManager.isEvaluated (r.getD []) ·) := by
  simp only [next] at hs
  split at hs
  next hphase =>
    cases r with
    | none =>
      obtain rfl := Option.some.inj hs
      exact ⟨hphase, rfl, rfl, rfl, rfl, by simp [TGTestcaseManager.isEvaluated, sent]⟩
    | some ids =>
      obtain rfl := Option.some.inj hs
      rw [TGTestcaseManager.removeEvaluated_eq]
      exact ⟨hphase, rfl, rfl, rfl, rfl, rfl⟩
  next => cases hs

/-- What a hand-out takes, and what it leaves behind. -/
theorem handOut_eq (hs : s.next cfg .handOut = some t) :
    s.phase = .handOut ∧ t = { s with
      manager := (s.manager.handMeAllTestcasesWithTooManyRetries
        cfg.m_maxRetriesBeforeReport).2
      phase := .report
      testcasesThatNeedToBeReported := (s.manager.handMeAllTestcasesWithTooManyRetries
        cfg.m_maxRetriesBeforeReport).1 } := by
  simp only [next] at hs
  split at hs
  next hphase => exact ⟨hphase, (Option.some.inj hs).symm⟩
  next => cases hs

/-- One turn of the report loop drops the last testcase or pushes it back. -/
theorem report_cases {success : Bool} (hs : s.next cfg (.report success) = some t) :
    s.phase = .report ∧ ∃ rest tc, s.testcasesThatNeedToBeReported = rest ++ [tc] ∧
      ((success = true ∧ t = { s with
          testcasesThatNeedToBeReported := rest
          markedForDeletion := s.markedForDeletion ++ [tc.deleteFile] }) ∨
        (success = false ∧ t = { s with
          manager := s.manager.pushNewGeneratedTestcase tc
          testcasesThatNeedToBeReported := rest })) := by
  simp only [next] at hs
  split at hs
  next hphase =>
    cases hl : s.testcasesThatNeedToBeReported.getLast? with
    | none => simp [hl] at hs
    | some tc =>
      have hsplit := List.dropLast_append_getLast? tc hl
      simp only [hl] at hs
      refine ⟨hphase, s.testcasesThatNeedToBeReported.dropLast, tc, hsplit.symm, ?_⟩
      cases success with
      | true => exact .inl ⟨rfl, (Option.some.inj hs).symm⟩
      | false => exact .inr ⟨rfl, (Option.some.inj hs).symm⟩
  next => cases hs

/-- A reinsertion moves exactly the sends older than the threshold. -/
theorem reinsert_cases {clock : Option ℤ} (hs : s.next cfg (.reinsert clock) = some t) :
    (s.phase = .report ∧ s.testcasesThatNeedToBeReported = []) ∧
      ((clock = none ∧ t = { s with phase := .removeCompleted }) ∨
        ∃ c, clock = some c ∧ c ≤ s.now ∧ t = { s with
          manager := s.manager.reinsertTestcasesHavingNoAnswerSince
            (c - cfg.m_intervallToWaitForReinsertionInMillisec)
          phase := .removeCompleted }) := by
  simp only [next] at hs
  split at hs
  next hphase =>
    refine ⟨hphase, ?_⟩
    cases clock with
    | none => exact .inl ⟨rfl, (Option.some.inj hs).symm⟩
    | some c =>
      simp only at hs
      split at hs
      next hc => exact .inr ⟨c, rfl, hc, (Option.some.inj hs).symm⟩
      next => cases hs
  next => cases hs

/-- A pop sends the front testcase or finds the queue empty. -/
theorem pop_cases (hs : s.next cfg .pop = some t) :
    (s.manager.m_pendingTestcaseQueue = [] ∧ t = s) ∨
    ∃ front rest, s.manager.m_pendingTestcaseQueue = front :: rest ∧ t = { s with
      manager := ⟨rest, s.manager.m_sentButNotEvaluatedTestcaseSet ++ [front.send s.now]⟩ } := by
  rcases s.manager.pop_cases s.now with ⟨hp, he⟩ | ⟨front, rest, hp, he⟩
  · simp only [next, he] at hs
    exact .inl ⟨hp, (Option.some.inj hs).symm⟩
  · simp only [next, he] at hs
    exact .inr ⟨front, rest, hp, (Option.some.inj hs).symm⟩

/-- Outside the report loop nothing is left to report. -/
def ReportsDone (s : TGState) : Prop :=
  s.phase ≠ .report → s.testcasesThatNeedToBeReported = []

theorem ReportsDone.next (h : ReportsDone s) (hs : s.next cfg e = some t) : ReportsDone t := by
  cases e with
  | tick elapsed => obtain rfl := Option.some.inj hs; exact h
  | generate ts => obtain rfl := Option.some.inj hs; exact h
  | pop => rcases pop_cases hs with ⟨_, rfl⟩ | ⟨_, _, _, rfl⟩ <;> exact h
  | removeCompleted r =>
    obtain ⟨hphase, _, _, _, hreport, _⟩ := removeCompleted_eq hs
    exact fun _ => hreport.trans (h (by simp [hphase]))
  | handOut =>
    obtain ⟨_, rfl⟩ := handOut_eq hs
    exact fun hne => absurd rfl hne
  | report success =>
    obtain ⟨hphase, rest, tc, _, ⟨_, rfl⟩ | ⟨_, rfl⟩⟩ := report_cases hs <;>
      exact fun hne => absurd hphase hne
  | reinsert clock =>
    obtain ⟨⟨_, hdone⟩, ⟨_, rfl⟩ | ⟨c, _, _, rfl⟩⟩ := reinsert_cases hs <;> exact fun _ => hdone

end Steps

/-! ### The past of one testcase -/

section Past

variable (W : ℤ)

/-- A completion that follows a send follows it by at least `W`. -/
def answeredLate (d : TestcaseDescriptor ℕ) (p q : TGState × TGEvent) : Prop :=
  sends d.mark p = true → delivers d.m_id q = true → p.1.now + W ≤ q.1.now

/-- After each send of `d` in the trace at least `W` passed until `t`, and no
completion of `d` was delivered before `W` had passed. -/
def Waited (tr : List (TGState × TGEvent)) (d : TestcaseDescriptor ℕ) (t : ℤ) : Prop :=
  (∀ p ∈ tr, sends d.mark p = true → p.1.now + W ≤ t) ∧ tr.Pairwise (answeredLate W d)

/-- The past of a testcase outside the sent set. -/
structure Rested (tr : List (TGState × TGEvent)) (t : ℤ) (d : TestcaseDescriptor ℕ) :
    Prop where
  attempts : d.m_numOfProcessingAttempts = tr.countP (sends d.mark)
  waited : Waited W tr d t

/-- The past of a testcase in the sent set: only its last send may be recent. -/
structure Out (tr : List (TGState × TGEvent)) (t : ℤ) (d : TestcaseDescriptor ℕ) :
    Prop where
  attempts : d.m_numOfProcessingAttempts = tr.countP (sends d.mark)
  quiet : tr.Pairwise (answeredLate W d)
  sent_le : d.m_timeOfLastSend ≤ t
  sends_le : ∀ p ∈ tr, sends d.mark p = true →
    p.1.now + W ≤ d.m_timeOfLastSend ∨ p.1.now = d.m_timeOfLastSend

variable {W} {tr : List (TGState × TGEvent)} {d : TestcaseDescriptor ℕ} {s : TGState}
  {e : TGEvent} {t : ℤ}

theorem pairwise_snoc {R : TGState × TGEvent → TGState × TGEvent → Prop}
    {p : TGState × TGEvent} :
    (tr ++ [p]).Pairwise R ↔ tr.Pairwise R ∧ ∀ q ∈ tr, R q p := by
  simp [List.pairwise_append]

theorem countP_snoc {n : ℕ} {p : TGState × TGEvent} :
    (tr ++ [p]).countP (sends n) = tr.countP (sends n) + if sends n p then 1 else 0 := by
  simp [List.countP_append, List.countP_singleton]

theorem Rested.step (h : Rested W tr s.now d) (hs : sends d.mark (s, e) = false)
    (ht : s.now ≤ t) : Rested W (tr ++ [(s, e)]) t d where
  attempts := by rw [countP_snoc, hs, h.attempts]; simp
  waited := by
    refine ⟨fun p hp hsend => ?_, pairwise_snoc.mpr ⟨h.waited.2, fun q hq hsend _ => ?_⟩⟩
    · rcases List.mem_append.mp hp with hp | hp
      · exact (h.waited.1 p hp hsend).trans ht
      · rw [List.mem_singleton.mp hp, hs] at hsend
        cases hsend
    · exact h.waited.1 q hq hsend

theorem Out.step (h : Out W tr s.now d) (hs : sends d.mark (s, e) = false)
    (hd : delivers d.m_id (s, e) = false) (ht : s.now ≤ t) : Out W (tr ++ [(s, e)]) t d where
  attempts := by rw [countP_snoc, hs, h.attempts]; simp
  quiet := pairwise_snoc.mpr ⟨h.quiet, fun _ _ _ hdel => by rw [hd] at hdel; cases hdel⟩
  sent_le := h.sent_le.trans ht
  sends_le p hp hsend := by
    rcases List.mem_append.mp hp with hp | hp
    · exact h.sends_le p hp hsend
    · rw [List.mem_singleton.mp hp, hs] at hsend
      cases hsend

/-- Once the last send is old enough, the whole past is. -/
theorem Out.rest (h : Out W tr t d) (hW : d.m_timeOfLastSend + W ≤ t) : Rested W tr t d where
  attempts := h.attempts
  waited := by
    refine ⟨fun p hp hsend => ?_, h.quiet⟩
    have hlast := h.sent_le
    rcases h.sends_le p hp hsend with hle | heq <;> omega

theorem Rested.send (h : Rested W tr s.now d) (hs : sends d.mark (s, .pop) = true) :
    Out W (tr ++ [(s, .pop)]) s.now (d.send s.now) where
  attempts := by rw [send_attempts, send_mark, countP_snoc, hs, h.attempts]; simp
  quiet := pairwise_snoc.mpr ⟨h.waited.2, fun _ _ _ hdel => by cases hdel⟩
  sent_le := le_rfl
  sends_le p hp hsend := by
    rcases List.mem_append.mp hp with hp | hp
    · exact .inl (h.waited.1 p hp hsend)
    · exact .inr (by rw [List.mem_singleton.mp hp]; rfl)

/-- A testcase that was never sent. -/
theorem Rested.of_unsent (ha : d.m_numOfProcessingAttempts = 0)
    (hs : ∀ p ∈ tr, sends d.mark p = false) : Rested W tr t d where
  attempts := by
    rw [ha, eq_comm, List.countP_eq_zero]
    intro p hp
    simp [hs p hp]
  waited := by
    refine ⟨fun p hp hsend => ?_, List.pairwise_iff_forall_sublist.mpr fun {p q} hpq hsend => ?_⟩
    · rw [hs p hp] at hsend
      cases hsend
    · rw [hs p (hpq.subset (by simp))] at hsend
      cases hsend

end Past

end Fluffi.Generator
