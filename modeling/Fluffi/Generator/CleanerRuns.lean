import Fluffi.Generator.Cleaner

/-! How long the testcases that were sent too often have waited. What rests in the queue or the
set has been sent as often as its counter says, with the wait interval behind every send, and what
is out misses only the last one. -/

namespace Fluffi.Generator

open Shared Systems TestcaseDescriptor

open TGState

/-! ### The invariant of a run -/

/-- The marks of everything the generator holds. -/
def TGState.heldMarks (s : TGState) : Multiset ℕ :=
  ((s.manager.m_pendingTestcaseQueue : Multiset (TestcaseDescriptor ℕ)) +
    s.manager.m_sentButNotEvaluatedTestcaseSet + s.testcasesThatNeedToBeReported).map mark

structure CleanerInv (W : ℤ) (tr : List (TGState × TGEvent)) (s : TGState) : Prop where
  marks : s.heldMarks.Nodup
  marks_lt : ∀ n ∈ s.heldMarks, n < s.nextMark
  sends_lt : ∀ p ∈ tr, ∀ n, sends n p = true → n < s.nextMark
  rested : ∀ d ∈ s.resting, Rested W tr s.now d
  out : ∀ d ∈ s.sent, Out W tr s.now d

variable {cfg : CleanerConfig} {W : ℤ} {tr : List (TGState × TGEvent)} {s t : TGState}
  {e : TGEvent}

theorem cleanerInv_init (W now : ℤ) : CleanerInv W [] (init now) where
  marks := by simp [heldMarks, init, TGTestcaseManager.empty]
  marks_lt := by simp [heldMarks, init, TGTestcaseManager.empty]
  sends_lt := by simp
  rested := by simp [resting, init, TGTestcaseManager.empty]
  out := by simp [sent, init, TGTestcaseManager.empty]

/-- A step that sends nothing and brings in nothing new carries the invariant on
when what rests afterwards has rested and what is out afterwards was out and not
delivered. -/
theorem CleanerInv.carry (h : CleanerInv W tr s) (he : e ≠ .pop)
    (hm : t.heldMarks ≤ s.heldMarks) (hn : t.nextMark = s.nextMark) (ht : s.now ≤ t.now)
    (hrest : ∀ d ∈ t.resting, Rested W tr s.now d)
    (hout : ∀ d ∈ t.sent, d ∈ s.sent ∧ delivers d.m_id (s, e) = false) :
    CleanerInv W (tr ++ [(s, e)]) t where
  marks := Multiset.nodup_of_le hm h.marks
  marks_lt n hmem := hn ▸ h.marks_lt n (Multiset.mem_of_le hm hmem)
  sends_lt p hp n hs := by
    rcases List.mem_append.mp hp with hp | hp
    · exact hn ▸ h.sends_lt p hp n hs
    · rw [List.mem_singleton.mp hp, sends_eq_false he] at hs
      cases hs
  rested d hd := (hrest d hd).step (sends_eq_false he) ht
  out d hd := (h.out d (hout d hd).1).step (sends_eq_false he) (hout d hd).2 ht

theorem CleanerInv.tick (h : CleanerInv W tr s) (elapsed : ℕ) :
    CleanerInv W (tr ++ [(s, .tick elapsed)]) { s with now := s.now + elapsed } :=
  h.carry (by simp) le_rfl rfl (by simp) h.rested (fun _ hd => ⟨hd, rfl⟩)

theorem delivers_removeCompleted (r : Option (List FluffiTestcaseID)) (d : TestcaseDescriptor ℕ) :
    delivers d.m_id (s, .removeCompleted r) = TGTestcaseManager.isEvaluated (r.getD []) d := by
  cases r <;> rfl

theorem CleanerInv.removeCompleted (h : CleanerInv W tr s) {r : Option (List FluffiTestcaseID)}
    (hs : s.next cfg (.removeCompleted r) = some t) :
    CleanerInv W (tr ++ [(s, .removeCompleted r)]) t := by
  obtain ⟨_, hnow, hmark, hpending, hreport, hsent⟩ := removeCompleted_eq hs
  have hsub : t.sent.Sublist s.sent := hsent ▸ List.filter_sublist
  refine h.carry (by simp) ?_ hmark hnow.ge ?_ ?_
  · rw [heldMarks, heldMarks, hpending, hreport]
    refine Multiset.map_le_map (add_le_add_left (add_le_add_right ?_ _) _)
    exact Multiset.coe_le.mpr hsub.subperm
  · rw [resting, hpending, hreport]
    exact h.rested
  · intro d hd
    rw [hsent] at hd
    exact ⟨List.mem_of_mem_filter hd,
      by rw [delivers_removeCompleted]; simpa using List.of_mem_filter hd⟩

/-- The guard of a hand-out: what has used up its retries was sent at least the
wait interval ago. -/
def PatientHandOut (cfg : CleanerConfig) (s : TGState) (e : TGEvent) : Prop :=
  e = .handOut → ∀ d ∈ s.sent,
    cfg.m_maxRetriesBeforeReport ≤ (d.m_numOfProcessingAttempts : ℤ) →
      d.m_timeOfLastSend + cfg.m_intervallToWaitForReinsertionInMillisec ≤ s.now

instance (cfg : CleanerConfig) (s : TGState) (e : TGEvent) : Decidable (PatientHandOut cfg s e) :=
  inferInstanceAs (Decidable (e = .handOut → ∀ d ∈ s.sent,
    cfg.m_maxRetriesBeforeReport ≤ (d.m_numOfProcessingAttempts : ℤ) →
      d.m_timeOfLastSend + cfg.m_intervallToWaitForReinsertionInMillisec ≤ s.now))

/-- Under the guard a handed out testcase has rested. -/
theorem CleanerInv.handed_rested
    (h : CleanerInv cfg.m_intervallToWaitForReinsertionInMillisec tr s)
    (hg : PatientHandOut cfg s .handOut) {d : TestcaseDescriptor ℕ}
    (hd : d ∈ (s.manager.handMeAllTestcasesWithTooManyRetries cfg.m_maxRetriesBeforeReport).1) :
    cfg.m_maxRetriesBeforeReport ≤ (d.m_numOfProcessingAttempts : ℤ) ∧
      Rested cfg.m_intervallToWaitForReinsertionInMillisec tr s.now d := by
  rw [TGTestcaseManager.handMe_eq] at hd
  have hsent : d ∈ s.sent := List.mem_of_mem_filter hd
  have hmax : cfg.m_maxRetriesBeforeReport ≤ (d.m_numOfProcessingAttempts : ℤ) := by
    simpa using List.of_mem_filter hd
  exact ⟨hmax, (h.out d hsent).rest (hg rfl d hsent hmax)⟩

theorem CleanerInv.handOut (h : CleanerInv cfg.m_intervallToWaitForReinsertionInMillisec tr s)
    (hempty : s.phase = .handOut → s.testcasesThatNeedToBeReported = [])
    (hg : PatientHandOut cfg s .handOut) (hs : s.next cfg .handOut = some t) :
    CleanerInv cfg.m_intervallToWaitForReinsertionInMillisec (tr ++ [(s, .handOut)]) t := by
  obtain ⟨hphase, rfl⟩ := handOut_eq hs
  refine h.carry (by simp) ?_ rfl le_rfl ?_ ?_
  · refine Multiset.map_le_map (le_of_eq ?_)
    simp only [TGTestcaseManager.handMe_eq, hempty hphase, Multiset.coe_nil, add_zero]
    conv_rhs => rw [← TGTestcaseManager.coe_filter_add s.manager.m_sentButNotEvaluatedTestcaseSet
      (fun it => cfg.m_maxRetriesBeforeReport ≤ (it.m_numOfProcessingAttempts : ℤ))]
    ac_rfl
  · intro d hd
    rcases List.mem_append.mp hd with hd | hd
    · exact h.rested d (List.mem_append_left _ hd)
    · exact (h.handed_rested hg hd).2
  · intro d hd
    have hd : d ∈ (s.manager.handMeAllTestcasesWithTooManyRetries
      cfg.m_maxRetriesBeforeReport).2.m_sentButNotEvaluatedTestcaseSet := hd
    rw [TGTestcaseManager.handMe_eq] at hd
    exact ⟨List.mem_of_mem_filter hd, rfl⟩

theorem CleanerInv.report (h : CleanerInv W tr s) {success : Bool}
    (hs : s.next cfg (.report success) = some t) :
    CleanerInv W (tr ++ [(s, .report success)]) t := by
  obtain ⟨_, rest, tc, hsplit, ⟨_, rfl⟩ | ⟨_, rfl⟩⟩ := report_cases hs
  · refine h.carry (by simp) ?_ rfl le_rfl ?_ (fun _ hd => ⟨hd, rfl⟩)
    · refine Multiset.map_le_map (add_le_add_right ?_ _)
      exact Multiset.coe_le.mpr (hsplit ▸ (List.sublist_append_left rest [tc]).subperm)
    · intro d hd
      refine h.rested d ?_
      rcases List.mem_append.mp hd with hd | hd
      · exact List.mem_append_left _ hd
      · exact List.mem_append_right _ (hsplit ▸ List.mem_append_left _ hd)
  · refine h.carry (by simp) (Multiset.map_le_map (le_of_eq ?_)) rfl le_rfl ?_
      (fun _ hd => ⟨hd, rfl⟩)
    · simp only [TGTestcaseManager.pushNewGeneratedTestcase, hsplit, ← Multiset.coe_add]
      ac_rfl
    · intro d hd
      refine h.rested d ?_
      simp only [resting, TGTestcaseManager.pushNewGeneratedTestcase, hsplit, List.mem_append,
        List.mem_singleton] at hd ⊢
      tauto

theorem CleanerInv.reinsert (h : CleanerInv cfg.m_intervallToWaitForReinsertionInMillisec tr s)
    {clock : Option ℤ} (hs : s.next cfg (.reinsert clock) = some t) :
    CleanerInv cfg.m_intervallToWaitForReinsertionInMillisec (tr ++ [(s, .reinsert clock)]) t := by
  obtain ⟨_, ⟨_, rfl⟩ | ⟨c, _, hc, rfl⟩⟩ := reinsert_cases hs
  · exact h.carry (by simp) le_rfl rfl le_rfl h.rested (fun _ hd => ⟨hd, rfl⟩)
  refine h.carry (by simp) (Multiset.map_le_map (le_of_eq ?_)) rfl le_rfl ?_ ?_
  · simp only [TGTestcaseManager.reinsert_eq, ← Multiset.coe_add]
    conv_rhs => rw [← TGTestcaseManager.coe_filter_add s.manager.m_sentButNotEvaluatedTestcaseSet
      (fun it => it.m_timeOfLastSend < c - cfg.m_intervallToWaitForReinsertionInMillisec)]
    ac_rfl
  · intro d hd
    simp only [resting, TGTestcaseManager.reinsert_eq, List.mem_append] at hd
    rcases hd with (hd | hd) | hd
    · exact h.rested d (List.mem_append_left _ hd)
    · have hold : d.m_timeOfLastSend < c - cfg.m_intervallToWaitForReinsertionInMillisec := by
        simpa using List.of_mem_filter hd
      exact (h.out d (List.mem_of_mem_filter hd)).rest (by omega)
    · exact h.rested d (List.mem_append_right _ hd)
  · intro d hd
    simp only [sent, TGTestcaseManager.reinsert_eq] at hd
    exact ⟨List.mem_of_mem_filter hd, rfl⟩

theorem CleanerInv.pop (h : CleanerInv W tr s) (hs : s.next cfg .pop = some t) :
    CleanerInv W (tr ++ [(s, .pop)]) t := by
  rcases pop_cases hs with ⟨hp, rfl⟩ | ⟨front, rest, hp, rfl⟩
  · have hnone : ∀ n, sends n (t, .pop) = false := fun n => sends_pop_nil hp
    refine ⟨h.marks, h.marks_lt, ?_, fun d hd => (h.rested d hd).step (hnone _) le_rfl,
      fun d hd => (h.out d hd).step (hnone _) rfl le_rfl⟩
    intro p hmem n hsend
    rcases List.mem_append.mp hmem with hmem | hmem
    · exact h.sends_lt p hmem n hsend
    · rw [List.mem_singleton.mp hmem, hnone] at hsend
      cases hsend
  have hsends : ∀ n, sends n (s, .pop) = true ↔ front.mark = n := fun n => sends_pop hp
  -- the front testcase shares its mark with nothing else that is held
  set others : Multiset (TestcaseDescriptor ℕ) :=
    (rest : Multiset (TestcaseDescriptor ℕ)) + s.manager.m_sentButNotEvaluatedTestcaseSet +
      s.testcasesThatNeedToBeReported with hothers
  have hheld : s.heldMarks = front.mark ::ₘ others.map mark := by
    simp only [heldMarks, hp, hothers, ← Multiset.cons_coe, Multiset.cons_add, Multiset.map_cons]
  have hne : ∀ d ∈ others, sends d.mark (s, .pop) = false := by
    intro d hd
    have hnot := (Multiset.nodup_cons.mp (hheld ▸ h.marks)).1
    rw [← Bool.not_eq_true, hsends]
    exact fun heq => hnot (heq ▸ Multiset.mem_map_of_mem mark hd)
  have hsame : heldMarks { s with
      manager := ⟨rest, s.manager.m_sentButNotEvaluatedTestcaseSet ++ [front.send s.now]⟩ } =
      s.heldMarks := by
    rw [hheld, hothers, ← Multiset.singleton_add]
    simp only [heldMarks, ← Multiset.coe_add, Multiset.map_add, Multiset.coe_singleton,
      Multiset.map_singleton, send_mark]
    ac_rfl
  refine ⟨hsame ▸ h.marks, hsame ▸ h.marks_lt, ?_, ?_, ?_⟩
  · intro p hmem n hsend
    rcases List.mem_append.mp hmem with hmem | hmem
    · exact h.sends_lt p hmem n hsend
    · rw [List.mem_singleton.mp hmem, hsends] at hsend
      exact hsend ▸ h.marks_lt _ (hheld ▸ Multiset.mem_cons_self _ _)
  · intro d hd
    have hd : d ∈ rest ++ s.testcasesThatNeedToBeReported := hd
    refine (h.rested d ?_).step (hne d ?_) le_rfl
    · simp only [resting, hp, List.mem_append, List.mem_cons] at hd ⊢
      tauto
    · simp only [hothers, Multiset.mem_add, Multiset.mem_coe, List.mem_append] at hd ⊢
      tauto
  · intro d hd
    have hd : d ∈ s.sent ++ [front.send s.now] := hd
    rcases List.mem_append.mp hd with hd | hd
    · have hd' : d ∈ s.manager.m_sentButNotEvaluatedTestcaseSet := hd
      exact (h.out d hd).step (hne d (by simp [hothers, hd'])) rfl le_rfl
    · rw [List.mem_singleton.mp hd]
      refine (h.rested front ?_).send ((hsends _).mpr rfl)
      exact List.mem_append_left _ (hp ▸ List.mem_cons_self)

theorem construct_marks (n : ℕ) (ts : List NewTestcase) :
    (construct n ts).map mark = List.range' n ts.length := by
  simp only [construct, List.map_map]
  exact List.zipIdx_map_snd n ts

theorem mem_construct {n : ℕ} {ts : List NewTestcase} {d : TestcaseDescriptor ℕ}
    (hd : d ∈ construct n ts) :
    n ≤ d.mark ∧ d.mark < n + ts.length ∧ d.m_numOfProcessingAttempts = 0 := by
  have hm : d.mark ∈ List.range' n ts.length := construct_marks n ts ▸ List.mem_map_of_mem hd
  obtain ⟨p, _, rfl⟩ := List.mem_map.mp hd
  exact ⟨(List.mem_range'_1.mp hm).1, (List.mem_range'_1.mp hm).2, rfl⟩

theorem CleanerInv.generate (h : CleanerInv W tr s) {ts : List NewTestcase}
    (hs : s.next cfg (.generate ts) = some t) : CleanerInv W (tr ++ [(s, .generate ts)]) t := by
  obtain rfl := Option.some.inj hs
  have hheld : heldMarks { s with
      manager := s.manager.pushNewGeneratedTestcases (construct s.nextMark ts)
      nextMark := s.nextMark + ts.length } =
      s.heldMarks + (List.range' s.nextMark ts.length : Multiset ℕ) := by
    rw [← construct_marks, ← Multiset.map_coe]
    simp only [heldMarks, TGTestcaseManager.pushNewGeneratedTestcases, ← Multiset.coe_add,
      Multiset.map_add]
    ac_rfl
  have hpast : ∀ d ∈ construct s.nextMark ts, ∀ p ∈ tr ++ [(s, .generate ts)],
      sends d.mark p = false := by
    intro d hd p hp
    rcases List.mem_append.mp hp with hp | hp
    · rw [← Bool.not_eq_true]
      intro hsend
      have := h.sends_lt p hp _ hsend
      have := (mem_construct hd).1
      omega
    · rw [List.mem_singleton.mp hp]
      rfl
  refine ⟨?_, ?_, ?_, ?_, fun d hd => (h.out d hd).step rfl rfl le_rfl⟩
  · rw [hheld, Multiset.nodup_add]
    refine ⟨h.marks, Multiset.coe_nodup.mpr List.nodup_range', ?_⟩
    rw [Multiset.disjoint_left]
    intro n hn hn'
    have := h.marks_lt n hn
    have := (List.mem_range'_1.mp (Multiset.mem_coe.mp hn')).1
    omega
  · intro n hn
    rw [hheld, Multiset.mem_add, Multiset.mem_coe] at hn
    show n < s.nextMark + ts.length
    rcases hn with hn | hn
    · have := h.marks_lt n hn
      omega
    · exact (List.mem_range'_1.mp hn).2
  · intro p hp n hsend
    show n < s.nextMark + ts.length
    rcases List.mem_append.mp hp with hp | hp
    · have := h.sends_lt p hp n hsend
      omega
    · rw [List.mem_singleton.mp hp] at hsend
      cases hsend
  · intro d hd
    simp only [resting, TGTestcaseManager.pushNewGeneratedTestcases, List.mem_append] at hd
    rcases hd with (hd | hd) | hd
    · exact (h.rested d (List.mem_append_left _ hd)).step rfl le_rfl
    · exact .of_unsent (mem_construct hd).2.2 (hpast d hd)
    · exact (h.rested d (List.mem_append_right _ hd)).step rfl le_rfl

theorem CleanerInv.next (h : CleanerInv cfg.m_intervallToWaitForReinsertionInMillisec tr s)
    (hd : ReportsDone s) (hg : PatientHandOut cfg s e) (hs : s.next cfg e = some t) :
    CleanerInv cfg.m_intervallToWaitForReinsertionInMillisec (tr ++ [(s, e)]) t := by
  cases e with
  | tick elapsed => obtain rfl := Option.some.inj hs; exact h.tick elapsed
  | generate ts => exact h.generate hs
  | pop => exact h.pop hs
  | removeCompleted r => exact h.removeCompleted hs
  | handOut => exact h.handOut (fun hphase => hd (by simp [hphase])) hg hs
  | report success => exact h.report hs
  | reinsert clock => exact h.reinsert hs

/-- In a run that hands out patiently, everything held has a past that fits its place. -/
theorem cleanerInv_run {now : ℤ} (hr : Run (TGState.next cfg) (init now) tr s)
    (hG : ∀ p ∈ tr, PatientHandOut cfg p.1 p.2) :
    CleanerInv cfg.m_intervallToWaitForReinsertionInMillisec tr s ∧ ReportsDone s := by
  refine hr.history (G := PatientHandOut cfg) (I := fun tr s =>
    CleanerInv cfg.m_intervallToWaitForReinsertionInMillisec tr s ∧ ReportsDone s) hG
    ⟨cleanerInv_init _ now, fun _ => rfl⟩ ?_
  intro tr s e t h hg hs
  exact ⟨h.1.next h.2 hg hs, h.2.next hs⟩

/-! ### Too many retries -/

/-- When every hand-out finds the testcases that used up their retries sent at
least the wait interval ago, a testcase is handed out only after `max` sends, each
followed by the whole interval without a completion. -/
theorem handed_out_waited {now : ℤ} {pre post : List (TGState × TGEvent)}
    (hr : Run (TGState.next cfg) (init now) (pre ++ (s, .handOut) :: post) t)
    (hG : ∀ p ∈ pre ++ (s, .handOut) :: post, PatientHandOut cfg p.1 p.2)
    {d : TestcaseDescriptor ℕ}
    (hd : d ∈ (s.manager.handMeAllTestcasesWithTooManyRetries cfg.m_maxRetriesBeforeReport).1) :
    cfg.m_maxRetriesBeforeReport ≤ (pre.countP (sends d.mark) : ℤ) ∧
      Waited cfg.m_intervallToWaitForReinsertionInMillisec pre d s.now := by
  have hpre := (cleanerInv_run hr.middle.1 (fun p hp => hG p (List.mem_append_left _ hp))).1
  have hg : PatientHandOut cfg s .handOut := hG (s, .handOut) (by simp)
  obtain ⟨hmax, hrest⟩ := hpre.handed_rested hg hd
  exact ⟨hrest.attempts ▸ hmax, hrest.waited⟩

/-- One send, the whole wait interval, and the next round of the cleaner. -/
def patientRun : List (TGState × TGEvent) × TGState :=
  (exec (TGState.next ⟨1, 300000⟩) (init 0)
    [.generate [⟨⟨⟨"tg:1", "guid"⟩, 1⟩, ⟨⟨"lm:1", "parent"⟩, 0⟩, "dir/guid-1", false⟩],
      .pop, .tick 300000, .removeCompleted (some [])]).getD ([], init 0)

theorem handed_out_waited_patient :
    ∃ d ∈ (patientRun.2.manager.handMeAllTestcasesWithTooManyRetries 1).1,
      1 ≤ (patientRun.1.countP (sends d.mark) : ℤ) ∧
        Waited 300000 patientRun.1 d patientRun.2.now := by
  have hrun : exec (TGState.next ⟨1, 300000⟩) (init 0) (patientRun.1.map Prod.snd) =
      some patientRun := by decide
  have hstep : (patientRun.2.next ⟨1, 300000⟩ .handOut).isSome := by decide
  have hout : ∃ d, d ∈ (patientRun.2.manager.handMeAllTestcasesWithTooManyRetries 1).1 :=
    List.exists_mem_of_ne_nil _ (by decide)
  have hG : ∀ p ∈ patientRun.1 ++ [(patientRun.2, .handOut)],
      PatientHandOut ⟨1, 300000⟩ p.1 p.2 := by
    decide
  obtain ⟨t, ht⟩ := Option.isSome_iff_exists.mp hstep
  obtain ⟨d, hd⟩ := hout
  exact ⟨d, hd, handed_out_waited (.snoc (run_of_exec hrun) ht) hG hd⟩

/-- Two sends that run into the wait interval, a third one, and the next round of
the cleaner at once. -/
def impatientEvents : List TGEvent :=
  let testcase : NewTestcase :=
    ⟨⟨⟨"tg:1", "guid"⟩, 1⟩, ⟨⟨"lm:1", "parent"⟩, 0⟩, "dir/guid-1", false⟩
  [.generate [testcase],
    .pop, .tick 300001, .removeCompleted (some []), .handOut, .reinsert (some 300001),
    .pop, .tick 300001, .removeCompleted (some []), .handOut, .reinsert (some 600002),
    .pop, .removeCompleted (some [])]

def impatientRun : List (TGState × TGEvent) × TGState :=
  (exec (TGState.next ⟨3, 300000⟩) (init 0) impatientEvents).getD ([], init 0)

/-- With three retries and five minutes to wait, a testcase is handed out in the
very millisecond in which it was sent for the third time. -/
theorem handed_out_at_once :
    ∃ pre s t d, Run (TGState.next ⟨3, 300000⟩) (init 0) (pre ++ [(s, .handOut)]) t ∧
      d ∈ (s.manager.handMeAllTestcasesWithTooManyRetries 3).1 ∧
      ¬ (3 ≤ (pre.countP (sends d.mark) : ℤ) ∧ Waited 300000 pre d s.now) := by
  have hrun : exec (TGState.next ⟨3, 300000⟩) (init 0) impatientEvents = some impatientRun := by
    decide
  have hstep : (impatientRun.2.next ⟨3, 300000⟩ .handOut).isSome := by decide
  have hearly : ∃ d ∈ (impatientRun.2.manager.handMeAllTestcasesWithTooManyRetries 3).1,
      ∃ p ∈ impatientRun.1, sends d.mark p = true ∧ ¬ p.1.now + 300000 ≤ impatientRun.2.now := by
    decide
  obtain ⟨t, ht⟩ := Option.isSome_iff_exists.mp hstep
  obtain ⟨d, hd, p, hp, hsend, hnot⟩ := hearly
  exact ⟨_, _, t, d, .snoc (run_of_exec hrun) ht, hd, fun h => hnot (h.2.1 p hp hsend)⟩

end Fluffi.Generator
