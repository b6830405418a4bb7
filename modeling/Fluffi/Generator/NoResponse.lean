import Fluffi.Generator.Cleaner
import Fluffi.LocalManager.NoResponse

/-! The queue cleaner reports the testcases that were sent too often without a result.
If a report is not answered its testcase goes back into the queue. If it is answered the
file is deleted, and what the answer says plays no role. -/

namespace Fluffi.Generator

open Shared Systems TestcaseDescriptor
open LocalManager (LMDatabase ReportEnv ReportTestcaseWithNoResultRequest
  handleReportTestcaseWithNoResultRequest)

/-- What happens during one report: how much of its file can be read, the uninitialised
memory of the generator, if the request gets to the local manager, what happens there, and
if the answer comes back in time. -/
structure Exchange where
  readLimit : Option ℕ
  leftover : Leftover
  delivered : Bool
  lm : ReportEnv
  answered : Bool

/-- `sendReqAndRecvResp` for a report: the field `success` of the answer, if there is one,
and the database afterwards. -/
def Exchange.sendReqAndRecvResp (exchange : Exchange) (db : LMDatabase) (lmTestcaseDir : String)
    (req : ReportTestcaseWithNoResultRequest) : Option Bool × LMDatabase :=
  if !exchange.delivered then (none, db)
  else
    match handleReportTestcaseWithNoResultRequest exchange.lm db lmTestcaseDir req with
    | .error _ => (none, db)
    | .ok (success, db, _) => (if exchange.answered then some success else none, db)

/-- A turn of the loop. -/
structure Turn (τ : Type) where
  tcToReport : TestcaseDescriptor τ
  exchange : Exchange

/-- The generator, and the database of its local manager. -/
structure ReportState (τ : Type) where
  manager : TGTestcaseManager τ
  host : Host
  db : LMDatabase

variable {τ : Type}

/-- The report with the first chunk, loaded from the files of the generator. -/
def Turn.request (C : ℕ) (m_testcaseDir : String) (files : String → Option Bytes)
    (turn : Turn τ) : Except Abnormal ReportTestcaseWithNoResultRequest :=
  (loadTestcaseChunkInMemory C (limited files turn.exchange.readLimit)
      turn.exchange.leftover.heap turn.tcToReport.m_id m_testcaseDir 0).map
    fun (data, isLastChunk) => ⟨turn.tcToReport.m_id, turn.tcToReport.m_parentId, data,
      isLastChunk.getD turn.exchange.leftover.isLastChunk⟩

/-- The body of the loop. -/
def Turn.report (C : ℕ) (m_testcaseDir lmTestcaseDir : String) (turn : Turn τ)
    (s : ReportState τ) : Except Abnormal (ReportState τ) :=
  (turn.request C m_testcaseDir s.host.files).map fun req =>
    match turn.exchange.sendReqAndRecvResp s.db lmTestcaseDir req with
    | (none, db) =>
      -- try again later
      { s with manager := s.manager.pushNewGeneratedTestcase turn.tcToReport, db }
    | (some _, db) =>
      -- the field of the answer is not looked at
      { s with host := s.host.markFileForDelete turn.tcToReport.deleteFile, db }

def reportAll (C : ℕ) (m_testcaseDir lmTestcaseDir : String) :
    List (Turn τ) → ReportState τ → Except Abnormal (ReportState τ)
  | [], s => .ok s
  | turn :: turns, s =>
    (turn.report C m_testcaseDir lmTestcaseDir s).bind
      (reportAll C m_testcaseDir lmTestcaseDir turns)

/-- The loop takes the testcases from the back of the vector. -/
def turnsOf (exchanges : ℕ → Exchange)
    (testcasesThatNeedToBeReported : List (TestcaseDescriptor τ)) : List (Turn τ) :=
  testcasesThatNeedToBeReported.reverse.zipIdx.map fun p => ⟨p.1, exchanges p.2⟩

def reportTestcasesWithMultipleNoResponse (C : ℕ) (m_testcaseDir lmTestcaseDir : String)
    (m_maxRetriesBeforeReport : ℤ) (exchanges : ℕ → Exchange) (s : ReportState τ) :
    Except Abnormal (ReportState τ) :=
  let (testcasesThatNeedToBeReported, manager) :=
    s.manager.handMeAllTestcasesWithTooManyRetries m_maxRetriesBeforeReport
  reportAll C m_testcaseDir lmTestcaseDir (turnsOf exchanges testcasesThatNeedToBeReported)
    { s with manager }

/-! ### Conditions on a turn -/

namespace Turn

variable (C : ℕ) (m_testcaseDir lmTestcaseDir : String) (files : String → Option Bytes)
  (turn : Turn τ)

/-- The report gets to the local manager, where `P` holds of it. -/
def AtManager (P : ReportEnv → String → ReportTestcaseWithNoResultRequest → Prop) : Prop :=
  turn.exchange.delivered = true ∧ ∃ req, turn.request C m_testcaseDir files = .ok req ∧
    P turn.exchange.lm lmTestcaseDir req

/-- The testcase gets a row. -/
def Stores : Prop := turn.AtManager C m_testcaseDir lmTestcaseDir files LocalManager.Stores

/-- The testcase loses its row if it had one. -/
def Loses : Prop := turn.AtManager C m_testcaseDir lmTestcaseDir files LocalManager.Loses

/-- An answer comes back. -/
def Answered : Prop :=
  turn.AtManager C m_testcaseDir lmTestcaseDir files LocalManager.Returns ∧
    turn.exchange.answered = true

end Turn

/-! ### One turn -/

section Turn

variable {C : ℕ} {m_testcaseDir lmTestcaseDir : String}

/-- The load of the first chunk returns, and the report has the ID of the testcase. -/
theorem request_ok (hsmall : C < 2 ^ 32) (files : String → Option Bytes) (turn : Turn τ) :
    ∃ req, turn.request C m_testcaseDir files = .ok req ∧ req.id = turn.tcToReport.m_id := by
  obtain ⟨data, assigned, hload, _⟩ := load_assigned hsmall
    (limited files turn.exchange.readLimit) turn.exchange.leftover.heap turn.tcToReport.m_id
    m_testcaseDir 0
  rw [Turn.request, hload]
  exact ⟨_, rfl, rfl⟩

theorem atManager_iff {files : String → Option Bytes} {turn : Turn τ}
    {req : ReportTestcaseWithNoResultRequest} (hreq : turn.request C m_testcaseDir files = .ok req)
    (P : ReportEnv → String → ReportTestcaseWithNoResultRequest → Prop) :
    turn.AtManager C m_testcaseDir lmTestcaseDir files P ↔
      turn.exchange.delivered = true ∧ P turn.exchange.lm lmTestcaseDir req := by
  rw [Turn.AtManager, hreq]
  simp

/-- What a sequence of turns does: `files` stay, every answered report marks its file, every
other report puts its testcase back, and the rows change as the local manager says. -/
structure Reported (C : ℕ) (m_testcaseDir lmTestcaseDir : String) (turns : List (Turn τ))
    (s t : ReportState τ) : Prop where
  files : t.host.files = s.host.files
  marked : ∀ f, f ∈ t.host.m_setOfFilesToDelete ↔ f ∈ s.host.m_setOfFilesToDelete ∨
    ∃ turn ∈ turns, turn.tcToReport.m_pathAndFileName = f ∧
      turn.Answered C m_testcaseDir lmTestcaseDir s.host.files
  pending : ∀ d, d ∈ t.manager.m_pendingTestcaseQueue ↔ d ∈ s.manager.m_pendingTestcaseQueue ∨
    ∃ turn ∈ turns, turn.tcToReport = d ∧
      ¬ turn.Answered C m_testcaseDir lmTestcaseDir s.host.files
  stored : ∀ creator, t.db.HasNoResponse creator ↔
    LastChange
      (fun turn => turn.tcToReport.m_id.key = creator ∧
        turn.Stores C m_testcaseDir lmTestcaseDir s.host.files)
      (fun turn => turn.tcToReport.m_id.key = creator ∧
        turn.Loses C m_testcaseDir lmTestcaseDir s.host.files)
      (s.db.HasNoResponse creator) turns

/-- What `sendReqAndRecvResp` returns, and what it leaves in the database. -/
theorem send_spec {files : String → Option Bytes} {turn : Turn τ}
    {req : ReportTestcaseWithNoResultRequest} (hreq : turn.request C m_testcaseDir files = .ok req)
    (db : LMDatabase) :
    ∃ resp db', turn.exchange.sendReqAndRecvResp db lmTestcaseDir req = (resp, db') ∧
      (resp.isSome ↔ turn.Answered C m_testcaseDir lmTestcaseDir files) ∧
      ∀ creator, db'.HasNoResponse creator ↔
        (req.id.key = creator ∧ turn.Stores C m_testcaseDir lmTestcaseDir files) ∨
        (db.HasNoResponse creator ∧
          ¬ (req.id.key = creator ∧ turn.Loses C m_testcaseDir lmTestcaseDir files)) := by
  unfold Turn.Answered Turn.Stores Turn.Loses
  simp only [atManager_iff hreq]
  unfold Exchange.sendReqAndRecvResp
  cases hdelivered : turn.exchange.delivered
  · exact ⟨none, db, rfl, by simp, by simp⟩
  rcases LocalManager.handle_cases turn.exchange.lm db lmTestcaseDir req with
    ⟨hreturns, hreaches, abnormal, hhandle⟩ | ⟨hreturns, success, db', host', hhandle, hrows⟩
  · rw [hhandle]
    refine ⟨none, db, rfl, by simp [hreturns], ?_⟩
    simp [LocalManager.Stores, LocalManager.Loses, hreaches]
  · rw [hhandle]
    refine ⟨_, db', rfl, by simp [hreturns], ?_⟩
    simpa [eq_comm] using hrows

/-- One turn. -/
theorem report_reported (hsmall : C < 2 ^ 32) (turn : Turn τ) (s : ReportState τ) :
    ∃ t, turn.report C m_testcaseDir lmTestcaseDir s = .ok t ∧
      Reported C m_testcaseDir lmTestcaseDir [turn] s t := by
  obtain ⟨req, hreq, hid⟩ := request_ok hsmall s.host.files turn
  obtain ⟨resp, db', hsend, hanswered, hrows⟩ := send_spec hreq s.db
  rw [hid] at hrows
  have hstored : ∀ creator, db'.HasNoResponse creator ↔ LastChange
      (fun turn => turn.tcToReport.m_id.key = creator ∧
        turn.Stores C m_testcaseDir lmTestcaseDir s.host.files)
      (fun turn => turn.tcToReport.m_id.key = creator ∧
        turn.Loses C m_testcaseDir lmTestcaseDir s.host.files)
      (s.db.HasNoResponse creator) [turn] := by
    intro creator
    rw [lastChange_cons, lastChange_nil, hrows]
  rw [Turn.report, hreq]
  simp only [Except.map, hsend]
  cases resp with
  | none =>
    have hno : ¬ turn.Answered C m_testcaseDir lmTestcaseDir s.host.files :=
      fun h => Bool.false_ne_true (hanswered.mpr h)
    refine ⟨_, rfl, rfl, ?_, ?_, hstored⟩
    · simp [hno]
    · simp [TGTestcaseManager.pushNewGeneratedTestcase, hno, eq_comm]
  | some success =>
    have hyes := hanswered.mp rfl
    refine ⟨_, rfl, rfl, ?_, ?_, hstored⟩
    · simp [Host.markFileForDelete, hyes, TestcaseDescriptor.deleteFile, or_comm, eq_comm]
    · simp [hyes]

theorem Reported.cons {turn : Turn τ} {turns : List (Turn τ)} {s t u : ReportState τ}
    (hone : Reported C m_testcaseDir lmTestcaseDir [turn] s t)
    (hrest : Reported C m_testcaseDir lmTestcaseDir turns t u) :
    Reported C m_testcaseDir lmTestcaseDir (turn :: turns) s u := by
  obtain ⟨hfiles, hmarked, hpending, hstored⟩ := hrest
  rw [hone.files] at hfiles hmarked hpending hstored
  refine ⟨hfiles, fun f => ?_, fun d => ?_, fun creator => ?_⟩
  · rw [hmarked, hone.marked, or_assoc]
    simp
  · rw [hpending, hone.pending, or_assoc]
    simp
  · have hfirst := hone.stored creator
    rw [lastChange_cons, lastChange_nil] at hfirst
    rw [hstored, lastChange_cons, hfirst]

/-- All turns. -/
theorem reportAll_reported (hsmall : C < 2 ^ 32) (turns : List (Turn τ)) (s : ReportState τ) :
    ∃ t, reportAll C m_testcaseDir lmTestcaseDir turns s = .ok t ∧
      Reported C m_testcaseDir lmTestcaseDir turns s t := by
  induction turns generalizing s with
  | nil => exact ⟨s, rfl, rfl, by simp, by simp, by simp [lastChange_nil]⟩
  | cons turn turns ih =>
    obtain ⟨t, hreport, hone⟩ := report_reported hsmall turn s
    obtain ⟨u, hall, hrest⟩ := ih t
    refine ⟨u, ?_, hone.cons hrest⟩
    rw [reportAll, hreport]
    exact hall

end Turn

/-! ### Nothing is forgotten -/

section Remembered

variable {C : ℕ} {m_testcaseDir lmTestcaseDir : String}

/-- The file is as it was, and it is not to be deleted. -/
def Intact (before after : Host) (filename : String) : Prop :=
  ∃ content, before.files filename = some content ∧ after.files filename = some content ∧
    filename ∉ after.m_setOfFilesToDelete

/-- The testcase is in the database, or it waits in the queue and has its file. -/
def Remembered (s t : ReportState τ) (d : TestcaseDescriptor τ) : Prop :=
  t.db.HasNoResponse d.m_id.key ∨
    (d ∈ t.manager.m_pendingTestcaseQueue ∧ Intact s.host t.host d.m_pathAndFileName)

/-- The last report that changes the row of the testcase stores it, or it is there before
and no report changes it. -/
def RowStays (C : ℕ) (m_testcaseDir lmTestcaseDir : String) (s : ReportState τ)
    (turns : List (Turn τ)) (d : TestcaseDescriptor τ) : Prop :=
  LastChange
    (fun turn => turn.tcToReport.m_id.key = d.m_id.key ∧
      turn.Stores C m_testcaseDir lmTestcaseDir s.host.files)
    (fun turn => turn.tcToReport.m_id.key = d.m_id.key ∧
      turn.Loses C m_testcaseDir lmTestcaseDir s.host.files)
    (s.db.HasNoResponse d.m_id.key) turns

/-- The file is there and not marked, and no report of a testcase with it is answered. -/
def FileStays (C : ℕ) (m_testcaseDir lmTestcaseDir : String) (s : ReportState τ)
    (turns : List (Turn τ)) (d : TestcaseDescriptor τ) : Prop :=
  (∃ content, s.host.files d.m_pathAndFileName = some content) ∧
    d.m_pathAndFileName ∉ s.host.m_setOfFilesToDelete ∧
    ∀ turn ∈ turns, turn.tcToReport.m_pathAndFileName = d.m_pathAndFileName →
      ¬ turn.Answered C m_testcaseDir lmTestcaseDir s.host.files

theorem map_turnsOf (exchanges : ℕ → Exchange) (ds : List (TestcaseDescriptor τ)) :
    (turnsOf exchanges ds).map Turn.tcToReport = ds.reverse := by
  rw [turnsOf, List.map_map]
  exact List.zipIdx_map_fst 0 ds.reverse

/-- Every testcase that was taken out has its turn. -/
theorem exists_turn (exchanges : ℕ → Exchange) {ds : List (TestcaseDescriptor τ)}
    {d : TestcaseDescriptor τ} (hd : d ∈ ds) :
    ∃ turn ∈ turnsOf exchanges ds, turn.tcToReport = d := by
  rw [← List.mem_map, map_turnsOf]
  exact List.mem_reverse.mpr hd

theorem Reported.remembers_iff {turns : List (Turn τ)} {s t : ReportState τ}
    (h : Reported C m_testcaseDir lmTestcaseDir turns s t) {d : TestcaseDescriptor τ}
    (hturn : ∃ turn ∈ turns, turn.tcToReport = d) :
    Remembered s t d ↔ RowStays C m_testcaseDir lmTestcaseDir s turns d ∨
      FileStays C m_testcaseDir lmTestcaseDir s turns d := by
  refine or_congr (h.stored _) ?_
  unfold Intact FileStays
  rw [h.files, h.pending, h.marked]
  constructor
  · rintro ⟨_, content, hfile, _, hmarked⟩
    refine ⟨⟨content, hfile⟩, fun hm => hmarked (.inl hm), fun turn hmem hpath hanswered => ?_⟩
    exact hmarked (.inr ⟨turn, hmem, hpath, hanswered⟩)
  · rintro ⟨⟨content, hfile⟩, hmarked, hturns⟩
    obtain ⟨turn, hmem, rfl⟩ := hturn
    refine ⟨.inr ⟨turn, hmem, rfl, hturns turn hmem rfl⟩, content, hfile, hfile, ?_⟩
    rintro (hm | ⟨other, hother, hpath, hanswered⟩)
    · exact hmarked hm
    · exact hturns other hother hpath hanswered

/-- The call remembers every testcase that it takes out of the sent set exactly if each
keeps its row or its file. -/
theorem remembered_iff (hsmall : C < 2 ^ 32) (m_testcaseDir lmTestcaseDir : String)
    (m_maxRetriesBeforeReport : ℤ) (exchanges : ℕ → Exchange) (s : ReportState τ) :
    (∃ t, reportTestcasesWithMultipleNoResponse C m_testcaseDir lmTestcaseDir
        m_maxRetriesBeforeReport exchanges s = .ok t ∧
      ∀ d ∈ (s.manager.handMeAllTestcasesWithTooManyRetries m_maxRetriesBeforeReport).1,
        Remembered s t d) ↔
    ∀ d ∈ (s.manager.handMeAllTestcasesWithTooManyRetries m_maxRetriesBeforeReport).1,
      RowStays C m_testcaseDir lmTestcaseDir s (turnsOf exchanges
        (s.manager.handMeAllTestcasesWithTooManyRetries m_maxRetriesBeforeReport).1) d ∨
      FileStays C m_testcaseDir lmTestcaseDir s (turnsOf exchanges
        (s.manager.handMeAllTestcasesWithTooManyRetries m_maxRetriesBeforeReport).1) d := by
  unfold reportTestcasesWithMultipleNoResponse
  obtain ⟨gone, manager⟩ := s.manager.handMeAllTestcasesWithTooManyRetries m_maxRetriesBeforeReport
  obtain ⟨t, hall, hreported⟩ := reportAll_reported hsmall (turnsOf exchanges gone)
    { s with manager }
  have hiff : ∀ d ∈ gone, Remembered s t d ↔
      RowStays C m_testcaseDir lmTestcaseDir s (turnsOf exchanges gone) d ∨
        FileStays C m_testcaseDir lmTestcaseDir s (turnsOf exchanges gone) d :=
    fun d hd => hreported.remembers_iff (exists_turn exchanges hd)
  constructor
  · rintro ⟨t', ht', hremembered⟩ d hd
    obtain rfl : t = t' := Except.ok.inj (hall.symm.trans ht')
    exact (hiff d hd).mp (hremembered d hd)
  · intro hcond
    exact ⟨t, hall, fun d hd => (hiff d hd).mpr (hcond d hd)⟩

end Remembered

/-! ### The queue cleaner as a system -/

section Cleaner

variable {C : ℕ} {m_testcaseDir lmTestcaseDir : String} {g : TGState} {s t : ReportState ℕ}

/-- The system is where the loop is. -/
structure InLoop (g : TGState) (s : ReportState ℕ) : Prop where
  manager : g.manager = s.manager
  marked : ∀ f ∈ s.host.m_setOfFilesToDelete, f ∈ g.markedForDeletion
  phase : g.phase = .report

/-- A turn of the loop is an event of the system. -/
theorem InLoop.report (cfg : CleanerConfig) {turn : Turn ℕ} (h : InLoop g s)
    (hlast : g.testcasesThatNeedToBeReported.getLast? = some turn.tcToReport)
    (hreport : turn.report C m_testcaseDir lmTestcaseDir s = .ok t) :
    ∃ success g', g.next cfg (.report success) = some g' ∧ InLoop g' t ∧
      g'.testcasesThatNeedToBeReported = g.testcasesThatNeedToBeReported.dropLast := by
  obtain ⟨req, _, hreport⟩ := map_eq_ok hreport
  cases hsend : turn.exchange.sendReqAndRecvResp s.db lmTestcaseDir req with
  | mk resp db =>
  rw [hsend] at hreport
  cases resp with
  | none =>
    obtain rfl := hreport
    have hnext : g.next cfg (.report false) = some { g with
        manager := g.manager.pushNewGeneratedTestcase turn.tcToReport
        testcasesThatNeedToBeReported := g.testcasesThatNeedToBeReported.dropLast } := by
      simp only [TGState.next, if_pos h.phase, hlast]
      rfl
    refine ⟨false, _, hnext, ⟨?_, h.marked, h.phase⟩, rfl⟩
    simp [h.manager]
  | some success =>
    obtain rfl := hreport
    have hnext : g.next cfg (.report true) = some { g with
        testcasesThatNeedToBeReported := g.testcasesThatNeedToBeReported.dropLast
        markedForDeletion := g.markedForDeletion ++ [turn.tcToReport.deleteFile] } := by
      simp only [TGState.next, if_pos h.phase, hlast]
      rfl
    refine ⟨true, _, hnext, ⟨h.manager, ?_, h.phase⟩, rfl⟩
    intro f hf
    rcases Finset.mem_insert.mp hf with rfl | hf
    · exact List.mem_append_right _ (List.mem_singleton_self _)
    · exact List.mem_append_left _ (h.marked f hf)

/-- The loop is a run of the system that reports everything. -/
theorem InLoop.reportAll (cfg : CleanerConfig) {turns : List (Turn ℕ)} (h : InLoop g s)
    (hturns : g.testcasesThatNeedToBeReported.reverse = turns.map Turn.tcToReport)
    (hall : reportAll C m_testcaseDir lmTestcaseDir turns s = .ok t) :
    ∃ tr g', Run (TGState.next cfg) g tr g' ∧ InLoop g' t ∧
      g'.testcasesThatNeedToBeReported = [] := by
  induction turns generalizing g s with
  | nil =>
    obtain rfl := Except.ok.inj hall
    exact ⟨[], g, .nil, h, List.reverse_eq_nil_iff.mp hturns⟩
  | cons turn turns ih =>
    rw [List.map_cons, List.reverse_eq_cons_iff] at hturns
    obtain ⟨s', hreport, hall⟩ := bind_eq_ok hall
    have hlast : g.testcasesThatNeedToBeReported.getLast? = some turn.tcToReport := by
      rw [hturns, List.getLast?_concat]
    obtain ⟨success, g', hnext, hinloop, hrest⟩ := h.report cfg hlast hreport
    rw [hturns, List.dropLast_concat] at hrest
    have hrest' : g'.testcasesThatNeedToBeReported.reverse = turns.map Turn.tcToReport := by
      rw [hrest, List.reverse_reverse]
    obtain ⟨tr, g'', hr, hend⟩ := ih hinloop hrest' hall
    exact ⟨_, g'', .cons hnext hr, hend⟩

/-- The call is a run of the system from `handOut` until nothing is left to report. -/
theorem report_run {cfg : CleanerConfig} {exchanges : ℕ → Exchange} (hphase : g.phase = .handOut)
    (hmanager : g.manager = s.manager)
    (hmarked : ∀ f ∈ s.host.m_setOfFilesToDelete, f ∈ g.markedForDeletion)
    (hcall : reportTestcasesWithMultipleNoResponse C m_testcaseDir lmTestcaseDir
      cfg.m_maxRetriesBeforeReport exchanges s = .ok t) :
    ∃ tr g', Run (TGState.next cfg) g tr g' ∧ InLoop g' t ∧
      g'.testcasesThatNeedToBeReported = [] := by
  unfold reportTestcasesWithMultipleNoResponse at hcall
  cases hgone : s.manager.handMeAllTestcasesWithTooManyRetries cfg.m_maxRetriesBeforeReport with
  | mk gone manager =>
  rw [hgone] at hcall
  have hnext : g.next cfg .handOut = some { g with
      manager, phase := .report, testcasesThatNeedToBeReported := gone } := by
    simp only [TGState.next, if_pos hphase, hmanager, hgone]
  have hinloop : InLoop { g with manager, phase := .report, testcasesThatNeedToBeReported := gone }
      { s with manager } := ⟨rfl, hmarked, rfl⟩
  obtain ⟨tr, g', hr, hend⟩ := hinloop.reportAll cfg (map_turnsOf exchanges gone).symm hcall
  exact ⟨_, g', .cons hnext hr, hend⟩

end Cleaner

/-- A testcase that was sent three times. -/
def sampleSent : TestcaseDescriptor ℕ :=
  ⟨⟨⟨"tg:1", "tg"⟩, 7⟩, ⟨⟨"", "guid"⟩, 1⟩, "queue/tg-7", 3, 0, false, 0⟩

def sampleReportState : ReportState ℕ where
  manager := ⟨[], [sampleSent]⟩
  host := Host.write ⟨fun _ => none, ∅⟩ "queue/tg-7" [1, 2]
  db := .empty

/-- Every message arrives, and the local manager has room for the file. -/
def sampleExchange (accepts : LocalManager.Statement → Bool) : Exchange where
  readLimit := some 100
  leftover := ⟨false, fun _ => 0⟩
  delivered := true
  lm := ⟨⟨fun _ => none, ∅⟩, ⟨[], true⟩, fun _ _ _ => .ok none, some 100, fun _ => 0, accepts⟩
  answered := true

/-- If the database accepts both statements the testcase gets its row. -/
theorem accepted_report_remembered :
    ∃ t, reportTestcasesWithMultipleNoResponse 2 "queue" "lm" 3
        (fun _ => sampleExchange fun _ => true) sampleReportState = .ok t ∧
      ∀ d ∈ (sampleReportState.manager.handMeAllTestcasesWithTooManyRetries 3).1,
        Remembered sampleReportState t d := by
  refine (remembered_iff (by decide) "queue" "lm" 3 _ _).mpr fun d hd => .inl ?_
  obtain rfl : d = sampleSent := List.mem_singleton.mp hd
  have hloads : (sampleExchange fun _ => true).lm.Loads [1, 2] := by
    simp [ReportEnv.Loads, sampleExchange]
  refine .inr ⟨[], ⟨sampleSent, sampleExchange fun _ => true⟩, [], rfl, ⟨rfl, rfl, _, rfl, ?_⟩,
    by simp⟩
  exact ⟨⟨⟨.inl rfl, rfl⟩, [1, 2], rfl, hloads⟩, rfl, rfl⟩

/-- If the database refuses the first statement the answer says so. The testcase is in no
table and in no queue, and its file is to be deleted. -/
theorem refused_report_forgotten :
    ¬ ∃ t, reportTestcasesWithMultipleNoResponse chunkSizeInBytes "queue" "lm" 3
        (fun _ => sampleExchange (· ≠ .deleteInteresting)) sampleReportState = .ok t ∧
      ∀ d ∈ (sampleReportState.manager.handMeAllTestcasesWithTooManyRetries 3).1,
        Remembered sampleReportState t d := by
  rintro ⟨t, ht, hremembered⟩
  have hsent := hremembered sampleSent (List.mem_singleton_self _)
  obtain rfl : (⟨⟨[], []⟩, sampleReportState.host.markFileForDelete "queue/tg-7", .empty⟩ :
    ReportState ℕ) = t := Except.ok.inj (Eq.trans rfl ht)
  rcases hsent with ⟨row, hrow, _⟩ | ⟨hpending, _⟩
  · cases hrow
  · cases hpending

end Fluffi.Generator
