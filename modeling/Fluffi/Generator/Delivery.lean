import Fluffi.Generator.Cleaner
import Fluffi.LocalManager.CompletedLog

/-! A testcase generator polling the completion log of its local manager. The
poll is the first step of a cleaning round; runners, the queue filler, inserts at
the local manager and the other steps of the round interleave with it freely.
Proved: after a poll delivered the completion of a testcase, the testcase is
never popped nor reported again exactly when it was not waiting in the pending
queue at that moment. -/

namespace Fluffi.Generator

open Shared Systems TestcaseDescriptor LocalManager

structure Session where
  tg : TGState
  log : CompletionLog
  deriving DecidableEq, Repr

inductive SessionEvent
  | tg (e : TGEvent)
  | log (e : LogEvent)
  /-- `removeCompletedTestcases` with the outcome of its request. -/
  | poll (outcome : PollOutcome)
  deriving DecidableEq, Repr

namespace Session

def init (now : ℤ) : Session := ⟨.init now, .init⟩

/-- The IDs that a poll with this outcome hands to the generator. -/
def polledIds (s : Session) (outcome : PollOutcome) : Option (List FluffiTestcaseID) :=
  (s.log.response outcome).map (·.ids)

def next (cfg : CleanerConfig) (s : Session) : SessionEvent → Option Session
  | .poll outcome =>
    (s.tg.next cfg (.removeCompleted (s.polledIds outcome))).bind fun tg =>
      (s.log.next (.poll outcome)).map fun log => ⟨tg, log⟩
  -- a poll is never a step of one side alone
  | .tg (.removeCompleted _) => none
  | .log (.poll _) => none
  | .tg e => (s.tg.next cfg e).map ({ s with tg := · })
  | .log e => (s.log.next e).map ({ s with log := · })

end Session

open Session

/-- The generator's part of a step. -/
def SessionEvent.tgEvent (s : Session) : SessionEvent → Option TGEvent
  | .tg e => some e
  | .log _ => none
  | .poll outcome => some (.removeCompleted (s.polledIds outcome))

variable {cfg : CleanerConfig} {s t u : Session} {e : SessionEvent} {k : TestcaseKey}

/-- A step of the session is a step of the generator or leaves the generator alone. -/
theorem Session.next_tg (hs : s.next cfg e = some t) :
    (∃ e', e.tgEvent s = some e' ∧ s.tg.next cfg e' = some t.tg) ∨
      (e.tgEvent s = none ∧ t.tg = s.tg) := by
  cases e with
  | poll outcome =>
    simp only [Session.next, Option.bind_eq_some_iff, Option.map_eq_some_iff] at hs
    obtain ⟨tg, htg, log, _, rfl⟩ := hs
    exact .inl ⟨_, rfl, htg⟩
  | tg e =>
    refine .inl ⟨e, rfl, ?_⟩
    cases e <;> simp only [Session.next, Option.map_eq_some_iff, reduceCtorEq] at hs <;>
      (obtain ⟨tg, htg, rfl⟩ := hs; exact htg)
  | log e =>
    refine .inr ⟨rfl, ?_⟩
    cases e <;> simp only [Session.next, Option.map_eq_some_iff, reduceCtorEq] at hs <;>
      (obtain ⟨log, _, rfl⟩ := hs; rfl)

/-! ### What a step does with one testcase -/

/-- The step returns a testcase with this key from `popPendingTCForProcessing`. -/
def pops (k : TestcaseKey) : Session × SessionEvent → Bool
  | (s, .tg .pop) => s.tg.manager.m_pendingTestcaseQueue.head?.any (·.m_id.key = k)
  | _ => false

/-- The step reports a testcase with this key as having had no response. -/
def reports (k : TestcaseKey) : Session × SessionEvent → Bool
  | (s, .tg (.report _)) => s.tg.testcasesThatNeedToBeReported.getLast?.any (·.m_id.key = k)
  | _ => false

/-- The step generates a testcase with this key. -/
def generates (k : TestcaseKey) : Session × SessionEvent → Bool
  | (_, .tg (.generate ts)) => ts.any (·.id.key = k)
  | _ => false

/-- The step delivers the completion of this key to `removeEvaluatedTestcases`. -/
def deliversKey (k : TestcaseKey) : Session × SessionEvent → Bool
  | (s, .poll outcome) => ((s.polledIds outcome).getD []).any (·.key = k)
  | _ => false

/-- The generator holds no testcase with this key. -/
def Absent (k : TestcaseKey) (s : TGState) : Prop :=
  (∀ d ∈ s.resting, d.m_id.key ≠ k) ∧ ∀ d ∈ s.sent, d.m_id.key ≠ k

theorem Absent.not_pops (h : Absent k s.tg) (e : SessionEvent) : pops k (s, e) = false := by
  unfold pops
  split
  next heq =>
    obtain ⟨rfl, _⟩ := Prod.mk.inj heq
    cases hp : s.tg.manager.m_pendingTestcaseQueue with
    | nil => rfl
    | cons front rest =>
      have hfront := h.1 front (List.mem_append_left _ (hp ▸ List.mem_cons_self))
      simpa using hfront
  next => rfl

theorem Absent.not_reports (h : Absent k s.tg) (e : SessionEvent) : reports k (s, e) = false := by
  unfold reports
  split
  next heq =>
    obtain ⟨rfl, _⟩ := Prod.mk.inj heq
    cases hl : s.tg.testcasesThatNeedToBeReported.getLast? with
    | none => rfl
    | some tc =>
      have htc := h.1 tc (List.mem_append_right _ (List.mem_of_getLast? hl))
      simpa using htc
  next => rfl

/-- No step of the generator but a push brings in a new key. -/
theorem Absent.next_tg {s t : TGState} {e : TGEvent} (h : Absent k s)
    (hnew : ∀ ts, e = .generate ts → ∀ n ∈ ts, n.id.key ≠ k) (hs : s.next cfg e = some t) :
    Absent k t := by
  obtain ⟨hrest, hsent⟩ := h
  cases e with
  | tick elapsed => obtain rfl := Option.some.inj hs; exact ⟨hrest, hsent⟩
  | generate ts =>
    obtain rfl := Option.some.inj hs
    refine ⟨fun d hd => ?_, hsent⟩
    simp only [TGState.resting, TGTestcaseManager.pushNewGeneratedTestcases,
      List.mem_append] at hd
    rcases hd with (hd | hd) | hd
    · exact hrest d (List.mem_append_left _ hd)
    · obtain ⟨p, hp, rfl⟩ := List.mem_map.mp hd
      exact hnew ts rfl p.1 (List.fst_mem_of_mem_zipIdx hp)
    · exact hrest d (List.mem_append_right _ hd)
  | pop =>
    rcases pop_cases hs with ⟨_, rfl⟩ | ⟨front, rest, hp, rfl⟩
    · exact ⟨hrest, hsent⟩
    have hpending : ∀ d ∈ front :: rest, d.m_id.key ≠ k := fun d hd =>
      hrest d (List.mem_append_left _ (hp ▸ hd))
    refine ⟨fun d hd => ?_, fun d hd => ?_⟩
    · rcases List.mem_append.mp hd with hd | hd
      · exact hpending d (List.mem_cons_of_mem _ hd)
      · exact hrest d (List.mem_append_right _ hd)
    · rcases List.mem_append.mp hd with hd | hd
      · exact hsent d hd
      · rw [List.mem_singleton.mp hd]
        exact hpending front List.mem_cons_self
  | removeCompleted r =>
    obtain ⟨_, _, _, hpending, hreport, hkept⟩ := removeCompleted_eq hs
    refine ⟨fun d hd => hrest d ?_, fun d hd => hsent d (List.mem_of_mem_filter (hkept ▸ hd))⟩
    rwa [TGState.resting, hpending, hreport] at hd
  | handOut =>
    obtain ⟨_, rfl⟩ := handOut_eq hs
    rw [TGTestcaseManager.handMe_eq]
    refine ⟨fun d hd => ?_, fun d hd => hsent d (List.mem_of_mem_filter hd)⟩
    rcases List.mem_append.mp hd with hd | hd
    · exact hrest d (List.mem_append_left _ hd)
    · exact hsent d (List.mem_of_mem_filter hd)
  | report success =>
    obtain ⟨_, rest, tc, hsplit, ⟨_, rfl⟩ | ⟨_, rfl⟩⟩ := report_cases hs <;>
      refine ⟨fun d hd => hrest d ?_, hsent⟩ <;>
      simp only [TGState.resting, TGTestcaseManager.pushNewGeneratedTestcase, hsplit,
        List.mem_append, List.mem_singleton] at hd ⊢ <;> tauto
  | reinsert clock =>
    obtain ⟨_, ⟨_, rfl⟩ | ⟨c, _, _, rfl⟩⟩ := reinsert_cases hs
    · exact ⟨hrest, hsent⟩
    rw [TGTestcaseManager.reinsert_eq]
    refine ⟨fun d hd => ?_, fun d hd => hsent d (List.mem_of_mem_filter hd)⟩
    simp only [TGState.resting, List.mem_append] at hd
    rcases hd with (hd | hd) | hd
    · exact hrest d (List.mem_append_left _ hd)
    · exact hsent d (List.mem_of_mem_filter hd)
    · exact hrest d (List.mem_append_right _ hd)

/-! ### After a delivery -/

theorem Absent.next (h : Absent k s.tg) (hnew : generates k (s, e) = false)
    (hs : s.next cfg e = some t) : Absent k t.tg := by
  rcases Session.next_tg hs with ⟨e', he, hstep⟩ | ⟨_, htg⟩
  · refine h.next_tg ?_ hstep
    rintro ts rfl n hn
    have hgen : e = .tg (.generate ts) := by
      cases e <;> simp only [SessionEvent.tgEvent, Option.some.injEq, reduceCtorEq] at he
      rw [he]
    rw [hgen] at hnew
    simpa using (List.any_eq_false.mp hnew) n hn
  · exact htg ▸ h

/-- What the generator does not hold it neither pops nor reports. -/
theorem Absent.run {post : List (Session × SessionEvent)} (h : Absent k s.tg)
    (hrun : Run (Session.next cfg) s post u) (hnew : ∀ p ∈ post, generates k p = false) :
    ∀ p ∈ post, pops k p = false ∧ reports k p = false := by
  have hall := hrun.invariant_mem (G := fun s e => generates k (s, e) = false)
    (I := fun s => Absent k s.tg) hnew h (fun hI hg hs => hI.next hg hs)
  intro p hp
  exact ⟨(hall.2 p hp).not_pops p.2, (hall.2 p hp).not_reports p.2⟩

theorem reportsDone_run {now : ℤ} {tr : List (Session × SessionEvent)}
    (hr : Run (Session.next cfg) (init now) tr s) : ReportsDone s.tg := by
  refine hr.invariant (I := fun s => ReportsDone s.tg) (fun _ => rfl) ?_
  intro s e t h hs
  rcases Session.next_tg hs with ⟨_, _, hstep⟩ | ⟨_, htg⟩
  · exact h.next hstep
  · exact htg ▸ h

/-- A poll that delivers a key leaves it, if anywhere, in the pending queue. -/
theorem poll_delivers {outcome : PollOutcome} (hd : ReportsDone s.tg)
    (hk : deliversKey k (s, .poll outcome) = true) (hs : s.next cfg (.poll outcome) = some t) :
    t.tg.manager.m_pendingTestcaseQueue = s.tg.manager.m_pendingTestcaseQueue ∧
      t.tg.testcasesThatNeedToBeReported = [] ∧ ∀ d ∈ t.tg.sent, d.m_id.key ≠ k := by
  simp only [Session.next, Option.bind_eq_some_iff, Option.map_eq_some_iff] at hs
  obtain ⟨tg, htg, log, _, rfl⟩ := hs
  obtain ⟨hphase, _, _, hpending, hreport, hsent⟩ := removeCompleted_eq htg
  refine ⟨hpending, hreport.trans (hd (by simp [hphase])), fun d hmem heq => ?_⟩
  rw [hsent] at hmem
  have hkept := List.of_mem_filter hmem
  obtain ⟨id, hid, hidk⟩ := List.any_eq_true.mp hk
  have hin : TGTestcaseManager.isEvaluated ((s.polledIds outcome).getD []) d = true := by
    rw [TGTestcaseManager.isEvaluated_iff, heq, ← of_decide_eq_true hidk]
    exact List.mem_map_of_mem hid
  simp [hin] at hkept

/-- Enough pops bring out any pending testcase. -/
theorem exists_pops (cfg : CleanerConfig)
    (hd : ∃ d ∈ s.tg.manager.m_pendingTestcaseQueue, d.m_id.key = k) :
    ∃ post u, Run (Session.next cfg) s post u ∧ (∀ p ∈ post, p.2 = .tg .pop) ∧
      ∃ p ∈ post, pops k p = true := by
  generalize hq : s.tg.manager.m_pendingTestcaseQueue = queue at hd
  induction queue generalizing s with
  | nil => simp at hd
  | cons front rest ih =>
    obtain ⟨v, hs, hv⟩ : ∃ v, s.next cfg (.tg .pop) = some v ∧
        v.tg.manager.m_pendingTestcaseQueue = rest := by
      simp only [Session.next, TGState.next, TGTestcaseManager.popPendingTCForProcessing, hq]
      exact ⟨_, rfl, rfl⟩
    by_cases hfront : front.m_id.key = k
    · exact ⟨_, _, .single hs, by simp, _, List.mem_singleton_self _, by simp [pops, hq, hfront]⟩
    · have hrest : ∃ d ∈ rest, d.m_id.key = k := by
        obtain ⟨d, hmem, hdk⟩ := hd
        rcases List.mem_cons.mp hmem with rfl | hmem
        · exact absurd hdk hfront
        · exact ⟨d, hmem, hdk⟩
      obtain ⟨post, u, hrun, hpop, p, hp, hpk⟩ := ih hv hrest
      refine ⟨_, u, .cons hs hrun, ?_, p, List.mem_cons_of_mem _ hp, hpk⟩
      intro q hq
      rcases List.mem_cons.mp hq with rfl | hq
      · rfl
      · exact hpop q hq

/-- Whatever the generator does after a poll delivered the completion of a testcase,
short of generating it anew, it neither pops nor reports it again: exactly when the
testcase is not in the pending queue as the poll arrives. -/
theorem delivered_stays_away {now : ℤ} {pre : List (Session × SessionEvent)}
    {outcome : PollOutcome}
    (hr : Run (Session.next cfg) (init now) (pre ++ [(s, .poll outcome)]) t)
    (hk : deliversKey k (s, .poll outcome) = true) :
    (∀ post u, Run (Session.next cfg) t post u → (∀ p ∈ post, generates k p = false) →
      ∀ p ∈ post, pops k p = false ∧ reports k p = false) ↔
    ∀ d ∈ s.tg.manager.m_pendingTestcaseQueue, d.m_id.key ≠ k := by
  obtain ⟨hpre, hs⟩ := hr.snoc_inv
  obtain ⟨hpending, hreport, hsent⟩ := poll_delivers (reportsDone_run hpre) hk hs
  constructor
  · intro hall d hd heq
    obtain ⟨post, u, hrun, hpop, p, hp, hpk⟩ :=
      exists_pops cfg (s := t) ⟨d, hpending ▸ hd, heq⟩
    have hgen : ∀ p ∈ post, generates k p = false := by
      rintro ⟨x, e⟩ hmem
      obtain rfl : e = .tg .pop := hpop _ hmem
      rfl
    have hno := (hall post u hrun hgen p hp).1
    rw [hpk] at hno
    cases hno
  · intro hnot post u hrun hnew
    refine Absent.run ⟨fun d hd => ?_, hsent⟩ hrun hnew
    rw [TGState.resting, hpending, hreport, List.append_nil] at hd
    exact hnot d hd

/-- A runner gets the testcase and its completion is logged. -/
def answeredEvents : List SessionEvent :=
  [.tg (.generate [⟨⟨⟨"tg:1", "guid"⟩, 1⟩, ⟨⟨"lm:1", "parent"⟩, 0⟩, "dir/guid-1", false⟩]),
    .tg .pop, .log (.tick 10), .log (.startInsert [⟨"guid", 1⟩]), .log (.commit 0)]

def answeredRun : List (Session × SessionEvent) × Session :=
  (exec (Session.next ⟨3, 300000⟩) (init 0) answeredEvents).getD ([], init 0)

theorem delivered_stays_away_answered :
    ∃ t, Run (Session.next ⟨3, 300000⟩) (init 0)
        (answeredRun.1 ++ [(answeredRun.2, .poll .answered)]) t ∧
      ∀ post u, Run (Session.next ⟨3, 300000⟩) t post u →
        (∀ p ∈ post, generates ⟨"guid", 1⟩ p = false) →
        ∀ p ∈ post, pops ⟨"guid", 1⟩ p = false ∧ reports ⟨"guid", 1⟩ p = false := by
  have hrun : exec (Session.next ⟨3, 300000⟩) (init 0) answeredEvents = some answeredRun := by
    decide
  have hstep : (answeredRun.2.next ⟨3, 300000⟩ (.poll .answered)).isSome := by decide
  obtain ⟨t, ht⟩ := Option.isSome_iff_exists.mp hstep
  have hr : Run (Session.next ⟨3, 300000⟩) (init 0)
      (answeredRun.1 ++ [(answeredRun.2, .poll .answered)]) t := .snoc (run_of_exec hrun) ht
  exact ⟨t, hr, (delivered_stays_away hr (by decide)).mpr (by decide)⟩

/-- The runner answers after the testcase was reinserted. -/
def lateEvents : List SessionEvent :=
  [.tg (.generate [⟨⟨⟨"tg:1", "guid"⟩, 1⟩, ⟨⟨"lm:1", "parent"⟩, 0⟩, "dir/guid-1", false⟩]),
    .tg .pop, .tg (.tick 300001), .poll .answered, .tg .handOut, .tg (.reinsert (some 300001)),
    .log (.tick 301), .log (.startInsert [⟨"guid", 1⟩]), .log (.commit 0)]

def lateRun : List (Session × SessionEvent) × Session :=
  (exec (Session.next ⟨3, 300000⟩) (init 0) lateEvents).getD ([], init 0)

/-- The next poll delivers the completion, and the pop after it sends the testcase
once more. -/
theorem late_completion_ignored :
    ∃ t u, Run (Session.next ⟨3, 300000⟩) (init 0)
        (lateRun.1 ++ [(lateRun.2, .poll .answered)]) t ∧
      deliversKey ⟨"guid", 1⟩ (lateRun.2, .poll .answered) = true ∧
      Run (Session.next ⟨3, 300000⟩) t [(t, .tg .pop)] u ∧
      pops ⟨"guid", 1⟩ (t, .tg .pop) = true := by
  have hrun : exec (Session.next ⟨3, 300000⟩) (init 0) lateEvents = some lateRun := by decide
  have hpoll : ∃ t, lateRun.2.next ⟨3, 300000⟩ (.poll .answered) = some t ∧
      (t.next ⟨3, 300000⟩ (.tg .pop)).isSome ∧ pops ⟨"guid", 1⟩ (t, .tg .pop) = true := by
    refine ⟨(lateRun.2.next ⟨3, 300000⟩ (.poll .answered)).getD (init 0), ?_⟩
    decide
  obtain ⟨t, ht, hsome, hpops⟩ := hpoll
  obtain ⟨u, hu⟩ := Option.isSome_iff_exists.mp hsome
  exact ⟨t, u, .snoc (run_of_exec hrun) ht, by decide, .single hu, hpops⟩

end Fluffi.Generator
