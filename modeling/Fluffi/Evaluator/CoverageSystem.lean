import Fluffi.Systems.Run
import Fluffi.Evaluator.Coverage
import Fluffi.LocalManager.Operation
import Fluffi.LocalManager.RecordedBlocks

/-! The evaluators and the local manager. Each evaluator adds the blocks of an outcome to its cache
before it reports the outcome, and pulls the blocks that the local manager has recorded. An outcome
without a block that is new to its evaluator is discarded, so a block in a cache has to be
accounted for at the local manager. -/

namespace Fluffi.Evaluator

open Shared Systems LocalManager

/-- The blocks of all testcases, or none if the query fails. -/
def generateGetCurrentBlockCoverageResponse (succeeds : Bool) (db : LMDatabase) :
    Finset FluffiBasicBlock :=
  if succeeds then db.covered_blocks.image fun c => ⟨c.ModuleID.toUInt32.toInt32, c.Offset⟩
  else ∅

/-- A request with an evaluation, and the outcome that it is about. -/
structure Message where
  outcome : TestOutcomeDescriptor
  request : PutTestEvaluationRequest

/-- The blocks that are to be recorded for the outcome. Partial coverage counts as none. -/
def reported (tod : TestOutcomeDescriptor) : List FluffiBasicBlock :=
  if tod.m_testResult.m_hasFullCoverage then tod.blocks else []

/-- What the request says about the outcome. -/
structure Message.Reports (message : Message) : Prop where
  id : message.request.id = message.outcome.m_id
  exitType : message.request.eval = .Keep →
    message.request.result.m_exitType = message.outcome.m_testResult.m_exitType
  blocks : message.request.eval = .Keep →
    ∀ b, b ∈ message.request.result.m_blocks ↔ b ∈ reported message.outcome

theorem reports_process {m_testcaseDir : String} {disk : Disk} {leftover : Leftover}
    {cache : Finset FluffiBasicBlock} {tod : TestOutcomeDescriptor} {evaluated : Evaluated}
    (h : processTestOutcomeDescriptor m_testcaseDir disk leftover cache tod = .ok evaluated) :
    Message.Reports ⟨tod, evaluated.putTestEvaluationRequest⟩ := by
  rw [processTestOutcomeDescriptor, lookUpBlocks_eq] at h
  dsimp only at h
  split at h
  · obtain rfl := Except.ok.inj h
    exact ⟨rfl, fun hkeep => TestEvaluation.noConfusion hkeep,
      fun hkeep => TestEvaluation.noConfusion hkeep⟩
  · cases hload : loadTestcaseChunkInMemory chunkSizeInBytes disk leftover.heap tod.m_id
        m_testcaseDir 0 with
    | error abnormal =>
      rw [hload] at h
      cases h
    | ok loaded =>
      rw [hload] at h
      obtain rfl := Except.ok.inj h
      refine ⟨rfl, fun _ => ?_, fun _ b => ?_⟩
      · dsimp only
        split
        · rfl
        · rfl
      · rw [reported]
        cases tod.m_testResult.m_hasFullCoverage with
        | false => exact Iff.rfl
        | true => simp [copyTestResultButStripDuplicateBlocks, TestOutcomeDescriptor.blocks]

inductive Fate
  | inFlight
  | lost
  | handled (success : Bool)
  deriving DecidableEq

/-- The evaluators `E`, the requests that they have sent and the answers to their pulls. -/
structure CoverageSystem (E : Type*) where
  evaluators : E → EvaluatorState
  /-- The request whose answer is waited for. -/
  waiting : E → Option ℕ
  pulled : E → Option (Finset FluffiBasicBlock)
  sent : List Message
  fate : ℕ → Fate
  lm : LMState

inductive CoverageEvent (E : Type*)
  | evaluate (e : E) (tod : TestOutcomeDescriptor) (disk : Disk) (leftover : Leftover)
  | lose (i : ℕ)
  | handle (i : ℕ) (env : RequestEnv)
  /-- `sendReqAndRecvResp` returns, with an answer or without. -/
  | finish (e : E) (success : Bool)
  | answerPull (e : E) (succeeds : Bool)
  | pullCoverageFromLM (e : E) (success : Bool)
  | manage (event : LMEvent)

namespace CoverageSystem

variable {E : Type*} [DecidableEq E] (evaluatorDir managerDir : String)

def setCache (s : CoverageSystem E) (e : E) (cache : Finset FluffiBasicBlock) :
    E → EvaluatorState :=
  Function.update s.evaluators e { s.evaluators e with m_blockCoverageCache := cache }

/-- A handler is one step: of the ten threads of the local manager, no two are at work on messages
of one testcase at once. The operator's `TRUNCATE` and the deletion of modules are left out. -/
def next (s : CoverageSystem E) : CoverageEvent E → Option (CoverageSystem E)
  | .evaluate e tod disk leftover =>
    if s.waiting e = none then
      (processTestOutcomeDescriptor evaluatorDir disk leftover
          (s.evaluators e).m_blockCoverageCache tod).toOption.map fun evaluated =>
        { s with
          evaluators := s.setCache e evaluated.m_blockCoverageCache
          waiting := Function.update s.waiting e (some s.sent.length)
          sent := s.sent ++ [⟨tod, evaluated.putTestEvaluationRequest⟩] }
    else none
  | .lose i =>
    if i < s.sent.length ∧ s.fate i = .inFlight then
      some { s with fate := Function.update s.fate i .lost }
    else none
  | .handle i env =>
    if s.fate i = .inFlight then
      s.sent[i]?.bind fun message =>
        (handlePutTestEvaluationRequest managerDir env s.lm message.request).toOption.map
          fun (success, lm) =>
            { s with fate := Function.update s.fate i (.handled success), lm := lm }
    else none
  | .finish e success =>
    (s.waiting e).bind fun i => s.sent[i]?.bind fun message =>
      -- an answer comes from the local manager, a timeout at any time
      if success ∧ (s.fate i = .inFlight ∨ s.fate i = .lost) then none
      else
        let evaluator := { s.evaluators e with
          m_currentTestcaseEvaluationSendTimeout := updateTestcaseEvaluationSendTimeout
            (s.evaluators e).m_currentTestcaseEvaluationSendTimeout success message.request.eval
            message.outcome.m_testResult.m_exitType }
        some { s with
          evaluators := Function.update s.evaluators e evaluator
          waiting := Function.update s.waiting e none }
  | .answerPull e succeeds =>
    if s.pulled e = none then
      let response := generateGetCurrentBlockCoverageResponse succeeds s.lm.db
      some { s with pulled := Function.update s.pulled e (some response) }
    else none
  | .pullCoverageFromLM e success =>
    (s.pulled e).map fun blocks =>
      { s with
        evaluators := if success then
            s.setCache e ((s.evaluators e).m_blockCoverageCache ∪ blocks) else s.evaluators
        pulled := Function.update s.pulled e none }
  | .manage event =>
    -- evaluations come from the evaluators only
    if event.isEvaluation then none
    else (LMState.next managerDir s.lm event).map fun lm => { s with lm := lm }

/-- New evaluators at a local manager. -/
def start (lm : LMState) : CoverageSystem E :=
  ⟨fun _ => .init, fun _ => none, fun _ => none, [], fun _ => .inFlight, lm⟩

/-- The step is about the testcase at the local manager. -/
def About (k : TestcaseKey) (p : CoverageSystem E × CoverageEvent E) : Prop :=
  match p.2 with
  | .handle i _ => ∃ message, p.1.sent[i]? = some message ∧ message.request.eval = .Keep ∧
      k = message.request.id.key
  | .manage event => event.About k
  | _ => False

/-- After the request was handled there was a step about the testcase. -/
def TouchedSince (tr : List (CoverageSystem E × CoverageEvent E)) (i : ℕ) (k : TestcaseKey) :
    Prop :=
  ∃ pre x env post, tr = pre ++ (x, .handle i env) :: post ∧ ∃ p ∈ post, About k p

/-- Request number `i` reports an outcome with the block as one to keep. It was not accepted, or
the testcase is not of the population, or was touched since, or it is recorded with its blocks. -/
def AccountedBy (tr : List (CoverageSystem E × CoverageEvent E)) (s : CoverageSystem E)
    (b : StoredBlock) (i : ℕ) (message : Message) : Prop :=
  s.sent[i]? = some message ∧ message.request.eval = .Keep ∧
    (∃ b' ∈ message.outcome.blocks, storedBlock b' = b) ∧
    (s.fate i ≠ .handled true ∨ message.outcome.m_testResult.m_exitType ≠ .CleanExit ∨
      TouchedSince tr i message.outcome.m_id.key ∨
      HasExactly s.lm.db message.outcome.m_id.key (reported message.outcome))

/-- The block was recorded at the start, or a request accounts for it. -/
def Accounted (lm : LMState) (tr : List (CoverageSystem E × CoverageEvent E))
    (s : CoverageSystem E) (b : StoredBlock) : Prop :=
  (∃ c ∈ lm.db.covered_blocks, c.stored = b) ∨ ∃ i message, AccountedBy tr s b i message

variable {evaluatorDir managerDir} {s s' : CoverageSystem E} {ev : CoverageEvent E}
  {tr : List (CoverageSystem E × CoverageEvent E)} {lm : LMState} {b : StoredBlock}
  {k : TestcaseKey}

/-! ### One step -/

theorem toOption_map_eq_some {ε α β : Type*} {x : Except ε α} {f : α → β} {c : β}
    (h : x.toOption.map f = some c) : ∃ a, x = .ok a ∧ f a = c := by
  obtain ⟨a, ha, rfl⟩ := Option.map_eq_some_iff.mp h
  exact ⟨a, toOption_eq_some ha, rfl⟩

/-- What a step can do to the requests, to the caches, to the pulls, to the local manager and to
the fates. -/
structure Effect (managerDir : String) (s s' : CoverageSystem E) (ev : CoverageEvent E) :
    Prop where
  sent : ∃ added, s'.sent = s.sent ++ added ∧ ∀ message ∈ added, message.Reports ∧
    ∀ b ∈ message.outcome.blocks, message.request.eval = .Keep ∨
      ∃ e, b ∈ (s.evaluators e).m_blockCoverageCache
  cache : ∀ e, ∀ b ∈ (s'.evaluators e).m_blockCoverageCache,
    b ∈ (s.evaluators e).m_blockCoverageCache ∨ (∃ blocks, s.pulled e = some blocks ∧ b ∈ blocks) ∨
      ∃ message ∈ s'.sent, message.request.eval = .Keep ∧ b ∈ message.outcome.blocks
  pulled : ∀ e blocks, s'.pulled e = some blocks → s.pulled e = some blocks ∨
    ∀ b ∈ blocks, ∃ c ∈ s.lm.db.covered_blocks, c.stored = storedBlock b
  lm : ∃ added, Change (fun entry => About entry.Creator (s, ev) ∨
      entry.TestCaseType ≠ .Population) added s.lm.db s'.lm.db ∧
    ∀ b ∈ added, ∃ message ∈ s.sent, message.request.eval = .Keep ∧
      b ∈ message.request.result.m_blocks
  fate : ∀ i, s'.fate i = s.fate i ∨ i < s.sent.length ∧ (s'.fate i = .lost ∨
    ∃ env success message, ev = .handle i env ∧ s'.fate i = .handled success ∧
      s.sent[i]? = some message ∧
      handlePutTestEvaluationRequest managerDir env s.lm message.request = .ok (success, s'.lm))

omit [DecidableEq E] in
theorem sent_same (s : CoverageSystem E) : ∃ added, s.sent = s.sent ++ added ∧
    ∀ message ∈ added, message.Reports ∧ ∀ b ∈ message.outcome.blocks,
      message.request.eval = .Keep ∨ ∃ e, b ∈ (s.evaluators e).m_blockCoverageCache :=
  ⟨[], (List.append_nil _).symm, fun _ h => absurd h List.not_mem_nil⟩

omit [DecidableEq E] in
theorem lm_same (s : CoverageSystem E) (touched : InterestingTestcase → Prop) :
    ∃ added, Change touched added s.lm.db s.lm.db ∧ ∀ b ∈ added, ∃ message ∈ s.sent,
      message.request.eval = .Keep ∧ b ∈ message.request.result.m_blocks :=
  ⟨[], .refl _ _ _, fun _ h => absurd h List.not_mem_nil⟩

theorem storedBlock_pulled (moduleID : UInt8) (offset : UInt64) :
    storedBlock ⟨moduleID.toUInt32.toInt32, offset⟩ = (moduleID, offset) := by
  refine Prod.ext ?_ rfl
  apply UInt8.eq_of_toBitVec_eq
  ext i hi
  simp [storedBlock]

theorem mem_pulled {succeeds : Bool} {db : LMDatabase} {b : FluffiBasicBlock}
    (h : b ∈ generateGetCurrentBlockCoverageResponse succeeds db) :
    ∃ c ∈ db.covered_blocks, c.stored = storedBlock b := by
  unfold generateGetCurrentBlockCoverageResponse at h
  split at h
  · obtain ⟨c, hc, rfl⟩ := Finset.mem_image.mp h
    exact ⟨c, hc, (storedBlock_pulled c.ModuleID c.Offset).symm⟩
  · exact absurd h (Finset.notMem_empty b)

theorem setCache_cache (s : CoverageSystem E) (e : E) {cache : Finset FluffiBasicBlock} (e' : E)
    {b : FluffiBasicBlock} (h : b ∈ (s.setCache e cache e').m_blockCoverageCache) :
    b ∈ (s.evaluators e').m_blockCoverageCache ∨ e' = e ∧ b ∈ cache := by
  by_cases he : e' = e
  · subst he
    rw [setCache, Function.update_self] at h
    exact .inr ⟨rfl, h⟩
  · rw [setCache, Function.update_of_ne he] at h
    exact .inl h

omit [DecidableEq E] in
/-- An outcome is kept, or it has no block that its evaluator does not know. -/
theorem evaluated_cases {e : E} {tod : TestOutcomeDescriptor} {disk : Disk} {leftover : Leftover}
    {evaluated : Evaluated} (h : processTestOutcomeDescriptor evaluatorDir disk leftover
      (s.evaluators e).m_blockCoverageCache tod = .ok evaluated) :
    evaluated.m_blockCoverageCache =
        (s.evaluators e).m_blockCoverageCache ∪ tod.blocks.toFinset ∧
      ∀ b ∈ tod.blocks, evaluated.putTestEvaluationRequest.eval = .Keep ∨
        b ∈ (s.evaluators e).m_blockCoverageCache := by
  obtain ⟨evaluated', hok, hcache, hcases⟩ :=
    process_cases evaluatorDir disk leftover (s.evaluators e).m_blockCoverageCache tod
  obtain rfl := Except.ok.inj (hok.symm.trans h)
  refine ⟨hcache, fun b hb => ?_⟩
  rcases hcases with ⟨hdiscard, -⟩ | ⟨-, hkeep, -⟩
  · refine .inr (by_contra fun hfresh => ?_)
    exact hdiscard.2.2 ⟨b, hb, hfresh⟩
  · exact .inl hkeep

theorem effect_evaluate {e : E} {tod : TestOutcomeDescriptor} {disk : Disk} {leftover : Leftover}
    (h : next evaluatorDir managerDir s (.evaluate e tod disk leftover) = some s') :
    Effect managerDir s s' (.evaluate e tod disk leftover) := by
  simp only [next, Option.ite_none_right_eq_some] at h
  obtain ⟨evaluated, hok, rfl⟩ := toOption_map_eq_some h.2
  obtain ⟨hcache, hknown⟩ := evaluated_cases hok
  refine ⟨⟨_, rfl, fun message hmem => ?_⟩, fun e' b hb => ?_, fun _ _ h => .inl h, lm_same s _,
    fun _ => .inl rfl⟩
  · rw [List.mem_singleton.mp hmem]
    exact ⟨reports_process hok, fun b hb => (hknown b hb).imp_right fun h => ⟨e, h⟩⟩
  · rcases setCache_cache s e e' hb with hold | ⟨rfl, hnew⟩
    · exact .inl hold
    rw [hcache, Finset.mem_union, List.mem_toFinset] at hnew
    rcases hnew with hold | hblock
    · exact .inl hold
    rcases hknown b hblock with hkeep | hold
    · exact .inr (.inr ⟨_, List.mem_append_right _ (List.mem_singleton_self _), hkeep, hblock⟩)
    · exact .inl hold

theorem effect_handle {i : ℕ} {env : RequestEnv}
    (h : next evaluatorDir managerDir s (.handle i env) = some s') :
    Effect managerDir s s' (.handle i env) := by
  simp only [next, Option.ite_none_right_eq_some] at h
  obtain ⟨message, hmessage, h⟩ := Option.bind_eq_some_iff.mp h.2
  obtain ⟨⟨success, lm⟩, hok, rfl⟩ := toOption_map_eq_some h
  obtain ⟨hlt, -⟩ := List.getElem?_eq_some_iff.mp hmessage
  refine ⟨sent_same s, fun _ _ hb => .inl hb, fun _ _ h => .inl h, ⟨_, (change_evaluation hok).mono
    (fun entry htouched => .inl ⟨message, hmessage, htouched⟩) (List.Subset.refl _),
    fun b hb => ?_⟩, fun j => ?_⟩
  · split at hb
    · rename_i hkeep
      exact ⟨message, List.mem_of_getElem? hmessage, hkeep, hb⟩
    · exact absurd hb List.not_mem_nil
  · by_cases hj : j = i
    · subst hj
      exact .inr ⟨hlt, .inr ⟨env, success, message, rfl, Function.update_self .., hmessage, hok⟩⟩
    · exact .inl (Function.update_of_ne hj ..)

theorem effect_manage {event : LMEvent}
    (h : next evaluatorDir managerDir s (.manage event) = some s') :
    Effect managerDir s s' (.manage event) := by
  simp only [next, Option.ite_none_left_eq_some] at h
  obtain ⟨hother, h⟩ := h
  obtain ⟨lm, hlm, rfl⟩ := Option.map_eq_some_iff.mp h
  refine ⟨sent_same s, fun _ _ hb => .inl hb, fun _ _ h => .inl h, ⟨event.blocks,
    (change_next hlm).mono (fun entry htouched => ?_) (List.Subset.refl _), fun b hb => ?_⟩,
    fun _ => .inl rfl⟩
  · refine htouched.imp_right fun hdrops => ?_
    cases event with
    | cleanUp statement =>
      intro hpop
      obtain ⟨htype, -⟩ := hdrops
      rw [hpop] at htype
      cases statement with
      | dropCrash order crashFootprint => cases htype
      | dropHangs => cases htype
      | dropNoResponses => cases htype
    | _ => exact hdrops.elim
  · cases event with
    | evaluate env req => exact absurd rfl hother
    | _ => exact absurd hb List.not_mem_nil

theorem effect_next (h : next evaluatorDir managerDir s ev = some s') :
    Effect managerDir s s' ev := by
  cases ev with
  | evaluate e tod disk leftover => exact effect_evaluate h
  | lose i =>
    simp only [next, Option.ite_none_right_eq_some, Option.some.injEq] at h
    obtain ⟨⟨hlt, -⟩, rfl⟩ := h
    refine ⟨sent_same s, fun _ _ hb => .inl hb, fun _ _ h => .inl h, lm_same s _, fun j => ?_⟩
    by_cases hj : j = i
    · subst hj
      exact .inr ⟨hlt, .inl (Function.update_self ..)⟩
    · exact .inl (Function.update_of_ne hj ..)
  | handle i env => exact effect_handle h
  | finish e success =>
    obtain ⟨i, -, h⟩ := Option.bind_eq_some_iff.mp h
    obtain ⟨message, -, h⟩ := Option.bind_eq_some_iff.mp h
    rw [Option.ite_none_left_eq_some, Option.some.injEq] at h
    obtain ⟨-, rfl⟩ := h
    refine ⟨sent_same s, fun e' b hb => .inl ?_, fun _ _ h => .inl h, lm_same s _,
      fun _ => .inl rfl⟩
    by_cases he : e' = e
    · subst he
      simpa only [Function.update_self] using hb
    · simpa only [Function.update_of_ne he] using hb
  | answerPull e succeeds =>
    simp only [next, Option.ite_none_right_eq_some, Option.some.injEq] at h
    obtain ⟨-, rfl⟩ := h
    refine ⟨sent_same s, fun _ _ hb => .inl hb, fun e' blocks hblocks => ?_, lm_same s _,
      fun _ => .inl rfl⟩
    by_cases he : e' = e
    · subst he
      simp only [Function.update_self, Option.some.injEq] at hblocks
      subst hblocks
      exact .inr fun b hb => mem_pulled hb
    · simp only [Function.update_of_ne he] at hblocks
      exact .inl hblocks
  | pullCoverageFromLM e success =>
    obtain ⟨blocks, hblocks, rfl⟩ := Option.map_eq_some_iff.mp h
    refine ⟨sent_same s, fun e' b hb => ?_, fun e' blocks' hblocks' => .inl ?_, lm_same s _,
      fun _ => .inl rfl⟩
    · cases success with
      | false => exact .inl hb
      | true =>
        rcases setCache_cache s e e' hb with hold | ⟨rfl, hnew⟩
        · exact .inl hold
        · exact (Finset.mem_union.mp hnew).imp_right fun hmem => .inl ⟨blocks, hblocks, hmem⟩
    · by_cases he : e' = e
      · subst he
        simp only [Function.update_self] at hblocks'
        cases hblocks'
      · simpa only [Function.update_of_ne he] using hblocks'
  | manage event => exact effect_manage h

/-! ### Where blocks come from -/

/-- The block was recorded at the start, or was reported with an outcome to keep. -/
def Known (lm : LMState) (s : CoverageSystem E) (b : StoredBlock) : Prop :=
  (∃ c ∈ lm.db.covered_blocks, c.stored = b) ∨
    ∃ message ∈ s.sent, message.request.eval = .Keep ∧
      ∃ b' ∈ message.outcome.blocks, storedBlock b' = b

structure Traceable (lm : LMState) (s : CoverageSystem E) : Prop where
  cache : ∀ e, ∀ b ∈ (s.evaluators e).m_blockCoverageCache, Known lm s (storedBlock b)
  pulled : ∀ e blocks, s.pulled e = some blocks → ∀ b ∈ blocks, Known lm s (storedBlock b)
  covered : ∀ c ∈ s.lm.db.covered_blocks, Known lm s c.stored
  outcome : ∀ message ∈ s.sent, ∀ b ∈ message.outcome.blocks, Known lm s (storedBlock b)
  reports : ∀ message ∈ s.sent, message.Reports

omit [DecidableEq E] in
theorem known_of_reported {message : Message} {b : FluffiBasicBlock} (hmem : message ∈ s.sent)
    (hreports : message.Reports) (hkeep : message.request.eval = .Keep)
    (hb : b ∈ message.request.result.m_blocks) : Known lm s (storedBlock b) := by
  have hreported := (hreports.blocks hkeep b).mp hb
  unfold reported at hreported
  split at hreported
  · exact .inr ⟨message, hmem, hkeep, b, hreported, rfl⟩
  · exact absurd hreported List.not_mem_nil

omit [DecidableEq E] in
theorem traceable_start (lm : LMState) : Traceable lm (start lm : CoverageSystem E) where
  cache _ b hb := absurd hb (Finset.notMem_empty b)
  pulled _ _ h := (Option.some_ne_none _ h.symm).elim
  covered c hc := .inl ⟨c, hc, rfl⟩
  outcome _ h := absurd h List.not_mem_nil
  reports _ h := absurd h List.not_mem_nil

theorem traceable_step (h : Traceable lm s) (hs : next evaluatorDir managerDir s ev = some s') :
    Traceable lm s' := by
  have heffect := effect_next hs
  obtain ⟨added, hsent, hadded⟩ := heffect.sent
  have hmono {b : StoredBlock} (hb : Known lm s b) : Known lm s' b :=
    hb.imp_right fun ⟨message, hmem, hrest⟩ =>
      ⟨message, hsent ▸ List.mem_append_left _ hmem, hrest⟩
  refine ⟨fun e b hb => ?_, fun e blocks hblocks b hb => ?_, fun c hc => ?_,
    fun message hmem b hb => ?_, fun message hmem => ?_⟩
  · rcases heffect.cache e b hb with
      hold | ⟨blocks, hblocks, hpulled⟩ | ⟨message, hmem, hkeep, hnew⟩
    · exact hmono (h.cache e b hold)
    · exact hmono (h.pulled e blocks hblocks b hpulled)
    · exact .inr ⟨message, hmem, hkeep, b, hnew, rfl⟩
  · rcases heffect.pulled e blocks hblocks with hold | hanswer
    · exact hmono (h.pulled e blocks hold b hb)
    · obtain ⟨c, hc, heq⟩ := hanswer b hb
      exact heq ▸ hmono (h.covered c hc)
  · obtain ⟨inserted, hchange, hfrom⟩ := heffect.lm
    rcases hchange.covered c hc with hold | ⟨b, hb, heq⟩
    · exact hmono (h.covered c hold)
    · obtain ⟨message, hmem, hkeep, hrequest⟩ := hfrom b hb
      rw [heq]
      exact hmono (known_of_reported hmem (h.reports message hmem) hkeep hrequest)
  · rw [hsent] at hmem
    rcases List.mem_append.mp hmem with hold | hnew
    · exact hmono (h.outcome message hold b hb)
    · rcases (hadded message hnew).2 b hb with hkeep | ⟨e, hcached⟩
      · exact .inr ⟨message, hsent ▸ List.mem_append_right _ hnew, hkeep, b, hb, rfl⟩
      · exact hmono (h.cache e b hcached)
  · rw [hsent] at hmem
    exact (List.mem_append.mp hmem).elim (h.reports message) fun hnew => (hadded message hnew).1

/-! ### What becomes of a request -/

/-- The local manager handled the request. -/
def Handled (tr : List (CoverageSystem E × CoverageEvent E)) (i : ℕ) : Prop :=
  ∃ pre x env post, tr = pre ++ (x, .handle i env) :: post

structure Settled (tr : List (CoverageSystem E × CoverageEvent E)) (s : CoverageSystem E) :
    Prop where
  fresh : ∀ i, s.sent.length ≤ i → s.fate i = .inFlight
  handled : ∀ i success, s.fate i = .handled success → Handled tr i
  recorded : ∀ i message, s.sent[i]? = some message → message.request.eval = .Keep →
    s.fate i = .handled true → message.outcome.m_testResult.m_exitType = .CleanExit →
    TouchedSince tr i message.outcome.m_id.key ∨
      HasExactly s.lm.db message.outcome.m_id.key (reported message.outcome)

omit [DecidableEq E] in
theorem Handled.extend {i : ℕ} (h : Handled tr i) (p : CoverageSystem E × CoverageEvent E) :
    Handled (tr ++ [p]) i := by
  obtain ⟨pre, x, env, post, rfl⟩ := h
  exact ⟨pre, x, env, post ++ [p], by simp⟩

omit [DecidableEq E] in
theorem TouchedSince.extend {i : ℕ} (h : TouchedSince tr i k)
    (p : CoverageSystem E × CoverageEvent E) : TouchedSince (tr ++ [p]) i k := by
  obtain ⟨pre, x, env, post, rfl, q, hq, habout⟩ := h
  exact ⟨pre, x, env, post ++ [p], by simp, q, List.mem_append_left _ hq, habout⟩

omit [DecidableEq E] in
theorem Handled.touched {i : ℕ} (h : Handled tr i) {p : CoverageSystem E × CoverageEvent E}
    (habout : About k p) : TouchedSince (tr ++ [p]) i k := by
  obtain ⟨pre, x, env, post, rfl⟩ := h
  exact ⟨pre, x, env, post ++ [p], by simp, p, by simp, habout⟩

/-- A step touches the testcase of a handled request, or leaves what is recorded for it. -/
theorem recorded_step {i : ℕ} {blocks : List FluffiBasicBlock} (hhandled : Handled tr i)
    (hs : next evaluatorDir managerDir s ev = some s')
    (h : TouchedSince tr i k ∨ HasExactly s.lm.db k blocks) :
    TouchedSince (tr ++ [(s, ev)]) i k ∨ HasExactly s'.lm.db k blocks := by
  rcases h with htouched | hexactly
  · exact .inl (htouched.extend _)
  by_cases habout : About k (s, ev)
  · exact .inl (hhandled.touched habout)
  · obtain ⟨added, hchange, -⟩ := (effect_next hs).lm
    refine .inr (hexactly.change hchange ?_)
    rintro entry rfl hpop (hself | hother)
    · exact habout hself
    · exact hother hpop

theorem settled_step (htrace : Traceable lm s) (h : Settled tr s)
    (hs : next evaluatorDir managerDir s ev = some s') : Settled (tr ++ [(s, ev)]) s' := by
  have heffect := effect_next hs
  obtain ⟨added, hsent, -⟩ := heffect.sent
  refine ⟨fun i hi => ?_, fun i success hfate => ?_,
    fun i message hmessage hkeep hfate hclean => ?_⟩
  · rw [hsent, List.length_append] at hi
    rcases heffect.fate i with hsame | ⟨hlt, -⟩
    · rw [hsame]
      exact h.fresh i (by omega)
    · omega
  · rcases heffect.fate i with hsame | ⟨-, hlost | ⟨env, success', message, rfl, -⟩⟩
    · exact (h.handled i success (hsame ▸ hfate)).extend _
    · rw [hlost] at hfate
      cases hfate
    · exact ⟨tr, s, env, [], rfl⟩
  · rcases heffect.fate i with
      hsame | ⟨-, hlost | ⟨env, success, message', rfl, hnow, hold, hok⟩⟩
    · have hfate' : s.fate i = .handled true := hsame ▸ hfate
      have hlt : i < s.sent.length := by
        by_contra hge
        rw [h.fresh i (not_lt.mp hge)] at hfate'
        cases hfate'
      rw [hsent, List.getElem?_append_left hlt] at hmessage
      exact recorded_step (h.handled i true hfate') hs
        (h.recorded i message hmessage hkeep hfate' hclean)
    · rw [hlost] at hfate
      cases hfate
    · -- the request is handled in this step
      obtain ⟨hlt, -⟩ := List.getElem?_eq_some_iff.mp hold
      rw [hsent, List.getElem?_append_left hlt, hold] at hmessage
      obtain rfl := Option.some.inj hmessage
      obtain rfl := Fate.handled.inj (hnow.symm.trans hfate)
      have hreports := htrace.reports _ (List.mem_of_getElem? hold)
      have hexactly := hasExactly_evaluation hkeep ((hreports.exitType hkeep).trans hclean) hok
      rw [hreports.id] at hexactly
      exact .inr (hexactly.congr (hreports.blocks hkeep))

/-! ### All runs -/

theorem invariant_run (hr : Run (next evaluatorDir managerDir) (start lm) tr s) :
    Traceable lm s ∧ Settled tr s := by
  refine hr.history (G := fun _ _ => True) (I := fun tr s => Traceable lm s ∧ Settled tr s)
    (fun _ _ => trivial) ⟨traceable_start lm, ⟨fun _ _ => rfl, fun i success h => ?_,
      fun i message h => ?_⟩⟩ ?_
  · cases h
  · cases h
  · intro tr s ev t ⟨htrace, hsettled⟩ _ hs
    exact ⟨traceable_step htrace hs, settled_step htrace hsettled hs⟩

omit [DecidableEq E] in
theorem Known.accounted (h : Known lm s b) (hsettled : Settled tr s) : Accounted lm tr s b := by
  refine h.imp_right fun ⟨message, hmem, hkeep, hblock⟩ => ?_
  obtain ⟨i, hi⟩ := List.mem_iff_getElem?.mp hmem
  refine ⟨i, message, hi, hkeep, hblock, ?_⟩
  by_cases hfate : s.fate i = .handled true
  · by_cases hclean : message.outcome.m_testResult.m_exitType = .CleanExit
    · exact .inr (.inr (hsettled.recorded i message hi hkeep hfate hclean))
    · exact .inr (.inl hclean)
  · exact .inl hfate

/-- In every run each block that an evaluator knows, and each block of an outcome that was
evaluated, is accounted for. -/
theorem coverage_accounted (hr : Run (next evaluatorDir managerDir) (start lm) tr s) :
    (∀ e, ∀ b ∈ (s.evaluators e).m_blockCoverageCache, Accounted lm tr s (storedBlock b)) ∧
      ∀ message ∈ s.sent, ∀ b ∈ message.outcome.blocks, Accounted lm tr s (storedBlock b) := by
  obtain ⟨htrace, hsettled⟩ := invariant_run hr
  exact ⟨fun e b hb => (htrace.cache e b hb).accounted hsettled,
    fun message hmem b hb => (htrace.outcome message hmem b hb).accounted hsettled⟩

def fresh : CoverageSystem Unit := start freshState

def visit : CoverageEvent Unit :=
  .evaluate () firstVisit (fun _ => some (.healthy [65])) ⟨false, fun _ => 0⟩

def visited : CoverageSystem Unit := (next "testcaseFiles" "testcases" fresh visit).get rfl

def acceptance : CoverageEvent Unit := .handle 0 silentEvaluator

def accepted : CoverageSystem Unit :=
  (next "testcaseFiles" "testcases" visited acceptance).get rfl

/-- The first visit is accepted, and its block is recorded. -/
theorem coverage_accounted_one : accepted.fate 0 = .handled true ∧
    Accounted freshState [(fresh, visit), (visited, acceptance)] accepted
      (storedBlock ⟨0, 4096⟩) := by
  refine ⟨by decide +kernel, (coverage_accounted (.cons (Option.some_get _).symm
    (.single (Option.some_get _).symm))).1 () ⟨0, 4096⟩ ?_⟩
  decide +kernel

end CoverageSystem

end Fluffi.Evaluator
