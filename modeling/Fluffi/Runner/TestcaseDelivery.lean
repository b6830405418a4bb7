import Fluffi.Runner.TestcaseFiles

/-! When a delivery hands the file over. The evaluator asks for the remaining chunks one by one,
and the handler of the runner marks the file when the last one is asked for. An evaluator that has
the testcase already may answer before it asks for that one. -/

namespace Fluffi.Runner

open Shared Systems
open Evaluator (TestOutcomeDescriptor)

/-! ### Chunks that are asked for -/

/-- Is message `k` about the last chunk of the file? -/
def Push.flag (C : ℕ) (push : Push) (content : Bytes) (k : ℕ) : Bool :=
  if (push.readLimit k).isNone || content.length < k * C then (push.leftover k).isLastChunk
  else decide (content.length ≤ (k + 1) * C)

/-- From chunk `k` on, the evaluator asks until it asks for the last one. -/
def Push.AsksForLast (C : ℕ) (push : Push) (content : Bytes) (k : ℕ) : Prop :=
  ∃ m, k ≤ m ∧ push.arrives m = true ∧ push.flag C content m = true ∧
    ∀ j, k ≤ j → j < m → push.arrives j = true ∧ push.answered j = true

section Chunks

variable {C : ℕ} {push : Push} {h : Host} {m_testcaseDir : String} {testcaseId : FluffiTestcaseID}
  {content : Bytes} {k : ℕ}

/-- The flag that loading a chunk assigns, or leaves as it was. -/
theorem flag_of_load {data : Bytes} {assigned : Option Bool}
    (hfile : h.files (generateTestcasePathAndFilename testcaseId m_testcaseDir) = some content)
    (hload : loadTestcaseChunkInMemory C (limited h.files (push.readLimit k))
      (push.leftover k).heap testcaseId m_testcaseDir k = .ok (data, assigned)) :
    assigned.getD (push.leftover k).isLastChunk = push.flag C content k := by
  unfold Push.flag
  cases hlimit : push.readLimit k with
  | none =>
    rw [loadTestcaseChunk_missing _ _ _ (by simp [limited, hfile, hlimit])] at hload
    obtain ⟨-, rfl⟩ := Prod.mk.inj (Except.ok.inj hload)
    rfl
  | some limit =>
    have hview : limited h.files (push.readLimit k)
        (generateTestcasePathAndFilename testcaseId m_testcaseDir) = some ⟨content, limit⟩ := by
      simp [limited, hfile, hlimit]
    by_cases hk : k * C ≤ content.length
    · rw [loadTestcaseChunk_valid _ hview hk] at hload
      obtain ⟨_, _, hpair⟩ := map_eq_ok hload
      obtain ⟨-, rfl⟩ := Prod.mk.inj hpair
      simp [not_lt.mpr hk]
    · rw [loadTestcaseChunk_invalid _ hview (by exact_mod_cast not_le.mp hk)] at hload
      obtain ⟨-, rfl⟩ := Prod.mk.inj (Except.ok.inj hload)
      simp [not_le.mp hk]

theorem answer_cases {response : GetTestCaseChunkResponse} {marked : Option String}
    (hfile : h.files (generateTestcasePathAndFilename testcaseId m_testcaseDir) = some content)
    (hanswer : push.answer C h m_testcaseDir testcaseId k = .ok (response, marked)) :
    response.islastchunk = push.flag C content k ∧
      marked = if push.flag C content k then
        some (generateTestcasePathAndFilename testcaseId m_testcaseDir) else none := by
  obtain ⟨⟨data, assigned⟩, hload, hpair⟩ := map_eq_ok hanswer
  obtain ⟨rfl, rfl⟩ := Prod.mk.inj hpair
  simp only [flag_of_load hfile hload, Bool.and_true, true_and]

/-- What the evaluator learns about a request. -/
theorem ask_cases {response : Option GetTestCaseChunkResponse}
    (hfile : h.files (generateTestcasePathAndFilename testcaseId m_testcaseDir) = some content)
    (hask : push.ask C h m_testcaseDir testcaseId k = .ok response) :
    match response with
    | none => ¬ (push.arrives k = true ∧ push.answered k = true)
    | some response => push.arrives k = true ∧ push.answered k = true ∧
        response.islastchunk = push.flag C content k := by
  unfold Push.ask at hask
  cases harrives : push.arrives k with
  | false =>
    rw [harrives] at hask
    obtain rfl := Except.ok.inj hask
    simp
  | true =>
    rw [harrives, if_pos rfl] at hask
    obtain ⟨⟨answer, marked⟩, hanswer, hresponse⟩ := map_eq_ok hask
    cases hanswered : push.answered k with
    | false =>
      rw [hanswered] at hresponse
      obtain rfl := hresponse
      simp
    | true =>
      rw [hanswered] at hresponse
      obtain rfl := hresponse
      exact ⟨rfl, rfl, (answer_cases hfile hanswer).1⟩

theorem asksForLast_of_flag (harrives : push.arrives k = true)
    (hflag : push.flag C content k = true) : push.AsksForLast C content k :=
  ⟨k, le_rfl, harrives, hflag, fun _ h₁ h₂ => absurd h₂ (not_lt.mpr h₁)⟩

/-- An answer without the flag passes the question on to the next request. -/
theorem asksForLast_succ (hanswered : push.arrives k = true ∧ push.answered k = true)
    (hmore : push.flag C content k = false) :
    push.AsksForLast C content k ↔ push.AsksForLast C content (k + 1) := by
  constructor
  · rintro ⟨m, hkm, harrives, hflag, hbefore⟩
    have hne : m ≠ k := by
      rintro rfl
      rw [hmore] at hflag
      cases hflag
    exact ⟨m, by omega, harrives, hflag, fun j h₁ h₂ => hbefore j (by omega) h₂⟩
  · rintro ⟨m, hkm, harrives, hflag, hbefore⟩
    refine ⟨m, by omega, harrives, hflag, fun j h₁ h₂ => ?_⟩
    by_cases hjk : j = k
    · rw [hjk]
      exact hanswered
    · exact hbefore j (by omega) h₂

/-- The loop marks the file exactly if it asks for the last chunk, and it does if it succeeds. -/
theorem requests_iff
    (hfile : h.files (generateTestcasePathAndFilename testcaseId m_testcaseDir) = some content)
    (increments : ℕ) (outstream : Bytes) : ∀ appended,
    appendRemainingChunks (push.ask C h m_testcaseDir testcaseId) increments k outstream =
      .ok appended →
    ((∃ j ∈ appended.requests, push.arrives j = true ∧ push.flag C content j = true) ↔
      push.AsksForLast C content k) ∧
    (appended.success = true → push.AsksForLast C content k) := by
  fun_induction appendRemainingChunks (push.ask C h m_testcaseDir testcaseId) increments k
      outstream with
  | case1 =>
    intro _ happend
    cases happend
  | case2 increments k outstream hask =>
    rintro _ ⟨⟩
    have hunanswered := ask_cases hfile hask
    refine ⟨?_, by simp⟩
    simp only [List.mem_singleton, exists_eq_left]
    refine ⟨fun hmarks => asksForLast_of_flag hmarks.1 hmarks.2, ?_⟩
    rintro ⟨m, hkm, harrives, hflag, hbefore⟩
    rcases hkm.eq_or_lt with rfl | hlt
    · exact ⟨harrives, hflag⟩
    · exact absurd (hbefore k le_rfl hlt) hunanswered
  | case3 =>
    intro _ happend
    cases happend
  | case4 k outstream answer hask outstream' increments hlast =>
    rintro _ ⟨⟩
    obtain ⟨harrives, _, hflag⟩ := ask_cases hfile hask
    rw [hlast] at hflag
    have hasks : push.AsksForLast C content k := asksForLast_of_flag harrives hflag.symm
    exact ⟨iff_of_true ⟨k, by simp, harrives, hflag.symm⟩ hasks, fun _ => hasks⟩
  | case5 k outstream answer hask outstream' increments hmore ih =>
    intro _ happend
    obtain ⟨appended, hrest, rfl⟩ := map_eq_ok happend
    obtain ⟨harrives, hanswered, hflag⟩ := ask_cases hfile hask
    have hunflagged : push.flag C content k = false := by
      rw [← hflag]
      exact Bool.eq_false_iff.mpr hmore
    obtain ⟨hiff, hsuccess⟩ := ih appended hrest
    rw [asksForLast_succ ⟨harrives, hanswered⟩ hunflagged, ← hiff]
    refine ⟨?_, fun hs => hiff.mpr (hsuccess hs)⟩
    simp [Appended.after, hunflagged]

theorem asked_ok {ask : ℕ → Except Abnormal (Option GetTestCaseChunkResponse)} (increments : ℕ)
    (outstream : Bytes) : ∀ appended,
    appendRemainingChunks ask increments k outstream = .ok appended →
    ∀ j ∈ appended.requests, ∃ response, ask j = .ok response := by
  fun_induction appendRemainingChunks ask increments k outstream with
  | case1 =>
    intro _ happend
    cases happend
  | case2 increments k outstream hask =>
    rintro _ ⟨⟩ j hj
    obtain rfl := List.mem_singleton.mp hj
    exact ⟨_, hask⟩
  | case3 =>
    intro _ happend
    cases happend
  | case4 k outstream answer hask outstream' increments hlast =>
    rintro _ ⟨⟩ j hj
    obtain rfl := List.mem_singleton.mp hj
    exact ⟨_, hask⟩
  | case5 k outstream answer hask outstream' increments hmore ih =>
    intro _ happend j hj
    obtain ⟨appended, hrest, rfl⟩ := map_eq_ok happend
    rcases List.mem_cons.mp hj with rfl | hj
    · exact ⟨_, hask⟩
    · exact ih appended hrest j hj

/-- The requests mark nothing but the file, and this one if they ask for the last chunk. -/
theorem leftover_marks_iff {f : String} {marked : Host} (requests : List ℕ)
    (hfile : h.files (generateTestcasePathAndFilename testcaseId m_testcaseDir) = some content)
    (hasked : ∀ j ∈ requests, ∃ response, push.ask C h m_testcaseDir testcaseId j = .ok response) :
    (requests.foldl (push.mark C h m_testcaseDir testcaseId) marked).Leftover f ↔
      marked.Leftover f ∧ ¬ (f = generateTestcasePathAndFilename testcaseId m_testcaseDir ∧
        ∃ j ∈ requests, push.arrives j = true ∧ push.flag C content j = true) := by
  induction requests generalizing marked with
  | nil => simp
  | cons k requests ih =>
    rw [List.foldl_cons, ih fun j hj => hasked j (List.mem_cons_of_mem _ hj), Push.mark]
    cases harrives : push.arrives k with
    | false => simp [harrives]
    | true =>
      obtain ⟨_, hask⟩ := hasked k List.mem_cons_self
      rw [Push.ask, harrives, if_pos rfl] at hask
      obtain ⟨⟨response, file⟩, hanswer, _⟩ := map_eq_ok hask
      obtain ⟨-, rfl⟩ := answer_cases hfile hanswer
      simp only [hanswer, if_true]
      cases hflag : push.flag C content k with
      | false => simp [hflag]
      | true =>
        simp only [if_true, leftover_markFileForDelete_iff, List.mem_cons, exists_eq_or_imp,
          harrives, hflag, and_self, true_or, and_true]
        tauto

end Chunks

/-! ### The delivery -/

/-- The delivery marks the file, or fails. -/
def Push.HandsOver (C : ℕ) (push : Push) (id : FluffiTestcaseID) (content : Bytes) : Prop :=
  push.arrives 0 = false ∨ push.answered 0 = false ∨
    push.evaluator.isThereAlreadyAToDFor id = false ∨ push.flag C content 0 = true ∨
    (push.evaluator.host.Opens push.evaluator.env
        (generateTestcasePathAndFilename id push.evaluator.m_testcaseDir) ∧
      push.AsksForLast C content 1)

section Delivery

variable {C : ℕ} {push : Push} {h h' : Host} {m_testcaseDir f : String}
  {testResult : FluffiTestResult} {testcaseId parentId : FluffiTestcaseID} {content : Bytes}
  {ask : ℕ → Except Abnormal (Option GetTestCaseChunkResponse)}

/-- What a store asks for: nothing unless it opens the file and there is more than a chunk. -/
theorem store_requests {env : StoreEnv} {testcaseDir : String} {firstChunk : Bytes}
    {stored : Stored}
    (hs : storeTestcaseFileOnDisk h env ask testcaseId testcaseDir firstChunk false =
      .ok stored) :
    (h.Opens env (generateTestcasePathAndFilename testcaseId testcaseDir) ∧
      ∃ appended, appendRemainingChunks ask (INT_MAX - 1) 1 firstChunk = .ok appended ∧
        stored.success = appended.success ∧ stored.requests = appended.requests) ∨
    (¬ h.Opens env (generateTestcasePathAndFilename testcaseId testcaseDir) ∧
      stored.success = false ∧ stored.requests = []) := by
  by_cases hopens : h.Opens env (generateTestcasePathAndFilename testcaseId testcaseDir)
  · obtain ⟨h', hmake⟩ := hopens.1.makeRoom
    rw [store_eq firstChunk false hmake, if_pos hopens.2, if_neg (by decide)] at hs
    obtain ⟨appended, happend, rfl⟩ := map_eq_ok hs
    exact .inl ⟨hopens, appended, happend, rfl, rfl⟩
  · refine .inr ⟨hopens, store_refused hopens hs, ?_⟩
    rcases makeRoom_cases h env.turns (generateTestcasePathAndFilename testcaseId testcaseDir) with
      ⟨_, _, hmake⟩ | ⟨_, hroom, h', hmake⟩ | ⟨_, _, hmake⟩
    · rw [storeTestcaseFileOnDisk, hmake] at hs
      cases hs
    · rw [store_eq firstChunk false hmake, if_neg fun ho => hopens ⟨hroom, ho⟩] at hs
      rw [← Except.ok.inj hs]
    · rw [storeTestcaseFileOnDisk, hmake] at hs
      rw [← Except.ok.inj hs]

/-- The exchange with an evaluator that is sent the first of several chunks. -/
theorem handle_marks_iff (req : PutTestResultRequest) (marked : Host) {result : PutTestResult}
    (hfile : h.files (generateTestcasePathAndFilename req.id m_testcaseDir) = some content)
    (hmore : req.islastchunk = false)
    (hhandle : handlePutTestResultRequest push.evaluator (push.ask C h m_testcaseDir req.id) req =
      .ok result) :
    ((result.requests.foldl (push.mark C h m_testcaseDir req.id) marked).Leftover f ↔
      marked.Leftover f ∧ ¬ (f = generateTestcasePathAndFilename req.id m_testcaseDir ∧
        push.evaluator.host.Opens push.evaluator.env
          (generateTestcasePathAndFilename req.id push.evaluator.m_testcaseDir) ∧
        push.AsksForLast C content 1)) ∧
    (result.success = true → push.evaluator.isThereAlreadyAToDFor req.id = false →
      push.evaluator.host.Opens push.evaluator.env
          (generateTestcasePathAndFilename req.id push.evaluator.m_testcaseDir) ∧
        push.AsksForLast C content 1) ∧
    (push.evaluator.isThereAlreadyAToDFor req.id = true → result.success = true) := by
  obtain ⟨stored, hstored, rfl⟩ := map_eq_ok hhandle
  rw [hmore] at hstored
  rcases store_requests hstored with ⟨hopens, appended, happend, hsuccess, hrequests⟩ |
    ⟨hopens, hfailed, hrequests⟩
  · obtain ⟨hiff, hasks⟩ := requests_iff hfile _ _ appended happend
    have hleft : (appended.requests.foldl (push.mark C h m_testcaseDir req.id) marked).Leftover f ↔
        marked.Leftover f ∧ ¬ (f = generateTestcasePathAndFilename req.id m_testcaseDir ∧
          push.AsksForLast C content 1) := by
      rw [← hiff]
      exact leftover_marks_iff appended.requests hfile (asked_ok _ _ appended happend)
    rw [← hsuccess] at hasks
    cases hs : stored.success with
    | true => simp [hrequests, hleft, hopens, hasks hs]
    | false => simpa [hrequests, hleft, hopens] using fun h₁ h₂ => by rw [h₁] at h₂; cases h₂
  · simp only [hfailed, Bool.false_eq_true, if_false, hrequests, List.foldl_nil, hopens,
      false_and, and_false, not_false_eq_true, and_true, true_and]
    exact ⟨fun h₁ h₂ => (Bool.eq_false_iff.mp h₂ h₁).elim, id⟩

/-- Requests make no file a leftover. -/
theorem leftover_marks {marked : Host} (requests : List ℕ)
    (hf : (requests.foldl (push.mark C h m_testcaseDir testcaseId) marked).Leftover f) :
    marked.Leftover f := by
  induction requests generalizing marked with
  | nil => exact hf
  | cons k requests ih =>
    have hmark : (push.mark C h m_testcaseDir testcaseId marked k).Leftover f := ih hf
    unfold Push.mark at hmark
    split at hmark
    · split at hmark
      · exact (leftover_markFileForDelete_iff.mp hmark).1
      · exact hmark
    · exact hmark

/-- The parts of a delivery. -/
theorem push_cases {success : Bool}
    (hpush : pushTestcaseWithResultsToEvaluator C h m_testcaseDir push testResult testcaseId
      parentId = .ok (success, h')) :
    ∃ data assigned marked, loadTestcaseChunkInMemory C (limited h.files (push.readLimit 0))
        (push.leftover 0).heap testcaseId m_testcaseDir 0 = .ok (data, assigned) ∧
      marked = (if assigned.getD (push.leftover 0).isLastChunk then
        h.markFileForDelete (generateTestcasePathAndFilename testcaseId m_testcaseDir) else h) ∧
      ((push.arrives 0 = false ∧ success = false ∧ h' = marked) ∨
      (push.arrives 0 = true ∧ ∃ result,
        handlePutTestResultRequest push.evaluator (push.ask C marked m_testcaseDir testcaseId)
            ⟨testcaseId, parentId, testResult, data, assigned.getD (push.leftover 0).isLastChunk⟩ =
          .ok result ∧
        success = (push.answered 0 && result.success) ∧
        h' = result.requests.foldl (push.mark C marked m_testcaseDir testcaseId) marked)) := by
  obtain ⟨⟨data, assigned⟩, hload, hrest⟩ := bind_eq_ok hpush
  refine ⟨data, assigned, _, hload, rfl, ?_⟩
  cases harrives : push.arrives 0 with
  | false =>
    simp only [harrives, Bool.not_false, if_true] at hrest
    obtain ⟨rfl, rfl⟩ := Prod.mk.inj (Except.ok.inj hrest)
    exact .inl ⟨rfl, rfl, rfl⟩
  | true =>
    simp only [harrives, Bool.not_true, Bool.false_eq_true, if_false] at hrest
    obtain ⟨result, hhandle, hpair⟩ := map_eq_ok hrest
    obtain ⟨rfl, rfl⟩ := Prod.mk.inj hpair
    exact .inr ⟨rfl, result, hhandle, rfl, rfl⟩

theorem leftover_push {success : Bool}
    (hpush : pushTestcaseWithResultsToEvaluator C h m_testcaseDir push testResult testcaseId
      parentId = .ok (success, h')) (hf : h'.Leftover f) : h.Leftover f := by
  obtain ⟨data, assigned, marked, _, hmarked, hend⟩ := push_cases hpush
  have hleft : marked.Leftover f := by
    rcases hend with ⟨_, _, rfl⟩ | ⟨_, result, _, _, rfl⟩
    · exact hf
    · exact leftover_marks result.requests hf
  rw [hmarked] at hleft
  split at hleft
  · exact (leftover_markFileForDelete_iff.mp hleft).1
  · exact hleft

/-- A file that is there is left over after a delivery unless it is handed over. -/
theorem leftover_push_iff {success : Bool}
    (hfile : h.files (generateTestcasePathAndFilename testcaseId m_testcaseDir) = some content)
    (hunmarked : generateTestcasePathAndFilename testcaseId m_testcaseDir ∉ h.m_setOfFilesToDelete)
    (hpush : pushTestcaseWithResultsToEvaluator C h m_testcaseDir push testResult testcaseId
      parentId = .ok (success, h')) :
    (success = true ∧
      h'.Leftover (generateTestcasePathAndFilename testcaseId m_testcaseDir)) ↔
    ¬ push.HandsOver C testcaseId content := by
  obtain ⟨data, assigned, marked, hload, hmarked, hend⟩ := push_cases hpush
  have hflag := flag_of_load (k := 0) hfile hload
  rw [hflag] at hmarked hend
  unfold Push.HandsOver
  rcases hend with ⟨harrives, rfl, _⟩ | ⟨harrives, result, hhandle, rfl, rfl⟩
  · simp [harrives]
  · cases hlast : push.flag C content 0 with
    | true =>
      -- marked before it was sent
      rw [hlast, if_pos rfl] at hmarked
      refine iff_of_false (fun ⟨_, hleft⟩ => ?_) (by simp)
      have hmark := leftover_marks result.requests hleft
      rw [hmarked, leftover_markFileForDelete_iff] at hmark
      exact hmark.2 rfl
    | false =>
      rw [hlast, if_neg (by decide)] at hmarked
      rw [hlast, hmarked] at hhandle
      rw [hmarked]
      obtain ⟨hiff, hsuccess, halready⟩ := handle_marks_iff
        (f := generateTestcasePathAndFilename testcaseId m_testcaseDir)
        ⟨testcaseId, parentId, testResult, data, false⟩ h hfile rfl hhandle
      have hfree : h.Leftover (generateTestcasePathAndFilename testcaseId m_testcaseDir) :=
        ⟨by simp [hfile], hunmarked⟩
      rw [hiff, Bool.and_eq_true]
      simp only [hfree, true_and, harrives, Bool.true_eq_false, false_or, Bool.false_eq_true,
        not_or, Bool.not_eq_false]
      constructor
      · rintro ⟨⟨hanswered, hs⟩, hnot⟩
        exact ⟨hanswered, by_contra fun hno => hnot (hsuccess hs (Bool.not_eq_true _ ▸ hno)), hnot⟩
      · rintro ⟨hanswered, hthere, hnot⟩
        exact ⟨⟨hanswered, halready hthere⟩, hnot⟩

end Delivery

end Fluffi.Runner
