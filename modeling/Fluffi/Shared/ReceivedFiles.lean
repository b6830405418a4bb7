import Fluffi.Shared.Transfer

/-! What the receiver makes of the chunks, and when it can store the file at all. -/

namespace Fluffi.Shared

open Systems

/-! ### Runs of the receiver's loop -/

section Append

variable {ask : ℕ → Except Abnormal (Option GetTestCaseChunkResponse)} {chunks : ℕ → Bytes}

/-- As long as no answer is flagged, the loop appends what it gets. -/
theorem append_more {k increments : ℕ} {outstream : Bytes} (m : ℕ)
    (hmore : ∀ j, k ≤ j → j < k + m → ask j = .ok (some ⟨j, chunks j, false⟩)) :
    appendRemainingChunks ask (increments + m) k outstream =
      (appendRemainingChunks ask increments (k + m)
        (outstream ++ (List.range' k m).flatMap chunks)).map
        fun a => { a with requests := List.range' k m ++ a.requests } := by
  induction m generalizing k outstream with
  | zero =>
    simp only [Nat.add_zero, List.range'_zero, List.flatMap_nil, List.append_nil, List.nil_append]
    exact (Except.map_id.symm ▸ rfl)
  | succ m ih =>
    rw [← Nat.add_assoc, appendRemainingChunks, hmore k le_rfl (by omega)]
    simp only [Bool.false_eq_true, if_false]
    rw [ih (fun j hk hj => hmore j (by omega) (by omega)), List.range'_succ, List.flatMap_cons,
      List.append_assoc, Nat.add_right_comm, Nat.add_assoc k m 1]
    cases appendRemainingChunks ask increments (k + (m + 1))
      (outstream ++ (chunks k ++ (List.range' (k + 1) m).flatMap chunks)) <;> rfl

/-- A lost request ends the loop without success. -/
theorem append_lost {m : ℕ} (hm : m + 1 ≤ INT_MAX) {firstChunk : Bytes}
    (hmore : ∀ j, 1 ≤ j → j < m + 1 → ask j = .ok (some ⟨j, chunks j, false⟩))
    (hlost : ask (m + 1) = .ok none) :
    ∃ outstream requests,
      appendRemainingChunks ask (INT_MAX - 1) 1 firstChunk = .ok ⟨false, outstream, requests⟩ := by
  have hsplit : INT_MAX - 1 = (INT_MAX - 1 - m) + m := by omega
  rw [hsplit, append_more m (fun j h₁ h₂ => hmore j h₁ (by omega)), Nat.add_comm 1 m,
    appendRemainingChunks, hlost]
  exact ⟨_, _, rfl⟩

/-- A flagged answer ends the loop with success, if `chunkID` can be incremented
once more. -/
theorem append_flagged {m : ℕ} (hm : m + 1 < INT_MAX) {firstChunk data : Bytes} {chunkid : ℤ}
    (hmore : ∀ j, 1 ≤ j → j < m + 1 → ask j = .ok (some ⟨j, chunks j, false⟩))
    (hlast : ask (m + 1) = .ok (some ⟨chunkid, data, true⟩)) :
    appendRemainingChunks ask (INT_MAX - 1) 1 firstChunk =
      .ok ⟨true, firstChunk ++ (List.range' 1 m).flatMap chunks ++ data,
        List.range' 1 (m + 1)⟩ := by
  have hsplit : INT_MAX - 1 = (INT_MAX - 1 - m - 1 + 1) + m := by omega
  have hrange : List.range' 1 (m + 1) = List.range' 1 m ++ [m + 1] := by
    rw [← List.range'_append_1, Nat.add_comm 1 m]
    rfl
  rw [hsplit, append_more m (fun j h₁ h₂ => hmore j h₁ (by omega)), Nat.add_comm 1 m,
    appendRemainingChunks, hlast, hrange]
  rfl

/-- If no request up to the largest `int` is lost and none before it is flagged,
`chunkID` overflows. -/
theorem append_overflow {firstChunk : Bytes} {answer : GetTestCaseChunkResponse}
    (hmore : ∀ j, 1 ≤ j → j < INT_MAX → ask j = .ok (some ⟨j, chunks j, false⟩))
    (hlast : ask INT_MAX = .ok (some answer)) :
    appendRemainingChunks ask (INT_MAX - 1) 1 firstChunk = .error .signedOverflow := by
  have hone : 1 + (INT_MAX - 1) = INT_MAX := rfl
  rw [← Nat.zero_add (INT_MAX - 1),
    append_more (INT_MAX - 1) (fun j h₁ h₂ => hmore j h₁ (by omega)), hone,
    appendRemainingChunks, hlast]
  rfl

/-- From request `k` on, no request is left without an answer before one is flagged. -/
def Answers (ask : ℕ → Except Abnormal (Option GetTestCaseChunkResponse)) (k : ℕ) : Prop :=
  ∀ i, k ≤ i → i ≤ INT_MAX →
    (∀ j, k ≤ j → j < i → ∃ answer, ask j = .ok (some answer) ∧ answer.islastchunk = false) →
    ask i ≠ .ok none

/-- From request `k` on, the answers bring these bytes until one is flagged. -/
inductive Fetches (ask : ℕ → Except Abnormal (Option GetTestCaseChunkResponse)) :
    ℕ → Bytes → Prop
  | last {k : ℕ} {answer : GetTestCaseChunkResponse} : k < INT_MAX → ask k = .ok (some answer) →
      answer.islastchunk = true → Fetches ask k answer.testcasechunk
  | more {k : ℕ} {answer : GetTestCaseChunkResponse} {rest : Bytes} : ask k = .ok (some answer) →
      answer.islastchunk = false → Fetches ask (k + 1) rest →
      Fetches ask k (answer.testcasechunk ++ rest)

/-- An unflagged answer passes the question on to the next request. -/
theorem answers_succ {k : ℕ} {answer : GetTestCaseChunkResponse}
    (hk : ask k = .ok (some answer)) (hmore : answer.islastchunk = false) :
    Answers ask k ↔ Answers ask (k + 1) := by
  constructor
  · intro h i hki hi hpast
    refine h i (by omega) hi fun j hkj hj => ?_
    by_cases hjk : j = k
    · exact ⟨answer, hjk ▸ hk, hmore⟩
    · exact hpast j (by omega) hj
  · intro h i hki hi hpast
    by_cases hik : i = k
    · rw [hik, hk]
      simp
    · exact h i (by omega) hi fun j hkj hj => hpast j (by omega) hj

/-- Nothing is asked after an answer that does not come back or is flagged. -/
theorem answers_of_flagged {k : ℕ} (hk : ask k ≠ .ok none)
    (hlast : ∀ answer, ask k = .ok (some answer) → answer.islastchunk = true) : Answers ask k := by
  intro i hki hi hpast
  by_cases hik : i = k
  · rwa [hik]
  · obtain ⟨answer, hanswer, hmore⟩ := hpast k le_rfl (by omega)
    rw [hlast answer hanswer] at hmore
    cases hmore

/-- The loop fails exactly when a request it reaches is not answered. -/
theorem append_success_iff {increments k : ℕ} (hk : increments + k = INT_MAX)
    (outstream : Bytes) :
    (∀ appended, appendRemainingChunks ask increments k outstream = .ok appended →
      appended.success = true) ↔ Answers ask k := by
  fun_induction appendRemainingChunks ask increments k outstream with
  | case1 increments k outstream abnormal hask =>
    exact iff_of_true (by simp) (answers_of_flagged (by simp [hask]) (by simp [hask]))
  | case2 increments k outstream hask =>
    refine iff_of_false (by simp) fun h => h k le_rfl (by omega) (fun j h₁ h₂ => ?_) hask
    omega
  | case3 k outstream answer hask =>
    refine iff_of_true (by simp) fun i hki hi _ => ?_
    obtain rfl : i = k := by omega
    simp [hask]
  | case4 k outstream answer hask _ increments hlast =>
    refine iff_of_true (by simp) (answers_of_flagged (by simp [hask]) ?_)
    simp [hask, hlast]
  | case5 k outstream answer hask outstream' increments hmore ih =>
    rw [Bool.not_eq_true] at hmore
    rw [answers_succ hask hmore, ← ih (by omega)]
    cases appendRemainingChunks ask increments (k + 1) outstream' <;>
      simp [Except.map, Appended.after]

theorem Fetches.lt {k : ℕ} {rest : Bytes} (h : Fetches ask k rest) : k < INT_MAX := by
  induction h with
  | last hlt => exact hlt
  | more _ _ _ ih => omega

/-- What is fetched begins with the first answer. -/
theorem fetches_iff {k : ℕ} {rest : Bytes} :
    Fetches ask k rest ↔ k < INT_MAX ∧ ∃ answer, ask k = .ok (some answer) ∧
      if answer.islastchunk then rest = answer.testcasechunk
      else ∃ rest', Fetches ask (k + 1) rest' ∧ rest = answer.testcasechunk ++ rest' := by
  constructor
  · intro h
    refine ⟨h.lt, ?_⟩
    cases h with
    | last _ hask hlast => exact ⟨_, hask, by rw [if_pos hlast]⟩
    | more hask hmore hrest => exact ⟨_, hask, by rw [hmore]; exact ⟨_, hrest, rfl⟩⟩
  · rintro ⟨hlt, answer, hask, hrest⟩
    cases hlast : answer.islastchunk
    · rw [hlast] at hrest
      obtain ⟨rest', hfetch, rfl⟩ := hrest
      exact .more hask hlast hfetch
    · rw [hlast] at hrest
      obtain rfl := hrest
      exact .last hlt hask hlast

/-- What the loop has written when it succeeds. -/
theorem append_fetches (increments : ℕ) {k : ℕ} (hk : increments + k = INT_MAX)
    (outstream content : Bytes) :
    (∃ appended, appendRemainingChunks ask increments k outstream = .ok appended ∧
      appended.success = true ∧ appended.outstream = content) ↔
    ∃ rest, Fetches ask k rest ∧ outstream ++ rest = content := by
  fun_induction appendRemainingChunks ask increments k outstream with
  | case1 increments k outstream abnormal hask => simp [fetches_iff (k := k), hask]
  | case2 increments k outstream hask => simp [fetches_iff (k := k), hask]
  | case3 k outstream answer hask =>
    have hmax : ¬ k < INT_MAX := by omega
    simp [fetches_iff (k := k), hmax]
  | case4 k outstream answer hask outstream' increments hlast =>
    have hlt : k < INT_MAX := by omega
    simp [fetches_iff (k := k), hask, hlast, hlt, outstream']
  | case5 k outstream answer hask outstream' increments hmore ih =>
    rw [Bool.not_eq_true] at hmore
    have hmap : (∃ appended, (appendRemainingChunks ask increments (k + 1) outstream').map
          (Appended.after k) = .ok appended ∧ appended.success = true ∧
          appended.outstream = content) ↔
        ∃ appended, appendRemainingChunks ask increments (k + 1) outstream' = .ok appended ∧
          appended.success = true ∧ appended.outstream = content := by
      cases appendRemainingChunks ask increments (k + 1) outstream' <;>
        simp [Except.map, Appended.after]
    rw [hmap, ih (by omega)]
    constructor
    · rintro ⟨rest, hfetch, rfl⟩
      exact ⟨_, .more hask hmore hfetch, by simp [outstream']⟩
    · rintro ⟨rest, hfetch, rfl⟩
      obtain ⟨_, answer', hask', hrest⟩ := fetches_iff.mp hfetch
      obtain rfl : answer = answer' := by simpa [hask] using hask'
      rw [hmore] at hrest
      obtain ⟨rest', hfetch', rfl⟩ := hrest
      exact ⟨rest', hfetch', by simp [outstream']⟩

/-- From request `k` on, the loop gets to its end: a request is not answered, or an
answer is flagged before `chunkID` overflows. -/
inductive Finishes (ask : ℕ → Except Abnormal (Option GetTestCaseChunkResponse)) : ℕ → Prop
  | lost {k : ℕ} : ask k = .ok none → Finishes ask k
  | last {k : ℕ} {answer : GetTestCaseChunkResponse} : k < INT_MAX → ask k = .ok (some answer) →
      answer.islastchunk = true → Finishes ask k
  | more {k : ℕ} {answer : GetTestCaseChunkResponse} : k < INT_MAX → ask k = .ok (some answer) →
      Finishes ask (k + 1) → Finishes ask k

theorem finishes_iff {k : ℕ} {answer : GetTestCaseChunkResponse}
    (hask : ask k = .ok (some answer)) :
    Finishes ask k ↔ k < INT_MAX ∧ (answer.islastchunk = true ∨ Finishes ask (k + 1)) := by
  constructor
  · intro h
    cases h with
    | lost hlost =>
      rw [hask] at hlost
      cases hlost
    | last hlt hask' hlast =>
      obtain rfl : answer = _ := by simpa [hask] using hask'
      exact ⟨hlt, .inl hlast⟩
    | more hlt _ hrest => exact ⟨hlt, .inr hrest⟩
  · rintro ⟨hlt, hlast | hrest⟩
    · exact .last hlt hask hlast
    · exact .more hlt hask hrest

theorem append_returns_iff (increments : ℕ) {k : ℕ} (hk : increments + k = INT_MAX)
    (outstream : Bytes) :
    (∃ appended, appendRemainingChunks ask increments k outstream = .ok appended) ↔
      Finishes ask k := by
  fun_induction appendRemainingChunks ask increments k outstream with
  | case1 increments k outstream abnormal hask =>
    refine iff_of_false (by simp) ?_
    rintro (hlost | ⟨_, hanswer, _⟩ | ⟨_, hanswer, _⟩)
    · rw [hask] at hlost
      cases hlost
    · rw [hask] at hanswer
      cases hanswer
    · rw [hask] at hanswer
      cases hanswer
  | case2 increments k outstream hask => exact iff_of_true ⟨_, rfl⟩ (.lost hask)
  | case3 k outstream answer hask =>
    have hmax : ¬ k < INT_MAX := by omega
    simp [finishes_iff hask, hmax]
  | case4 k outstream answer hask outstream' increments hlast =>
    exact iff_of_true ⟨_, rfl⟩ (.last (by omega) hask hlast)
  | case5 k outstream answer hask outstream' increments hmore ih =>
    have hlt : k < INT_MAX := by omega
    have hmap : (∃ appended, (appendRemainingChunks ask increments (k + 1) outstream').map
          (Appended.after k) = .ok appended) ↔
        ∃ appended, appendRemainingChunks ask increments (k + 1) outstream' = .ok appended := by
      cases appendRemainingChunks ask increments (k + 1) outstream' <;> simp [Except.map]
    rw [hmap, ih (by omega), finishes_iff hask]
    simp [hmore, hlt]

end Append

/-! ### Room for the file -/

/-- There is no file yet, or it is marked and gone before a stop is requested. -/
def HasRoom (h : Host) (turns : List WaitTurn) (filename : String) : Prop :=
  h.files filename = none ∨ (filename ∈ h.m_setOfFilesToDelete ∧
    ∃ turn, turns.find? WaitTurn.ends = some turn ∧ turn.m_stopRequested = false)

/-- The file is marked, and it stays and no stop is requested. -/
def KeepsWaiting (h : Host) (turns : List WaitTurn) (filename : String) : Prop :=
  h.files filename ≠ none ∧ filename ∈ h.m_setOfFilesToDelete ∧
    turns.find? WaitTurn.ends = none

theorem waitForDeletion_eq (turns : List WaitTurn) :
    waitForDeletion turns = match turns.find? WaitTurn.ends with
      | none => .error .stillWaiting
      | some turn => .ok !turn.m_stopRequested := by
  induction turns with
  | nil => rfl
  | cons turn turns ih =>
    rw [waitForDeletion, List.find?_cons, WaitTurn.ends]
    cases hstop : turn.m_stopRequested
    · cases hdel : turn.deleted
      · simpa using ih
      · simp [hstop]
    · simp [hstop]

theorem makeRoom_cases (h : Host) (turns : List WaitTurn) (filename : String) :
    (KeepsWaiting h turns filename ∧ ¬ HasRoom h turns filename ∧
      makeRoom h turns filename = .error .stillWaiting) ∨
    (¬ KeepsWaiting h turns filename ∧ HasRoom h turns filename ∧
      ∃ h', makeRoom h turns filename = .ok (some h')) ∨
    (¬ KeepsWaiting h turns filename ∧ ¬ HasRoom h turns filename ∧
      makeRoom h turns filename = .ok none) := by
  unfold KeepsWaiting HasRoom makeRoom Host.isFileMarkedForDeletion
  cases hf : h.files filename with
  | none => simp
  | some content =>
    by_cases hmark : filename ∈ h.m_setOfFilesToDelete
    · rw [waitForDeletion_eq]
      cases hturn : turns.find? WaitTurn.ends with
      | none => simp [hmark, Except.map]
      | some turn => cases hstop : turn.m_stopRequested <;> simp [hmark, hstop, Except.map]
    · simp [hmark]

theorem HasRoom.makeRoom {h : Host} {turns : List WaitTurn} {filename : String}
    (hroom : HasRoom h turns filename) : ∃ h', makeRoom h turns filename = .ok (some h') := by
  rcases makeRoom_cases h turns filename with ⟨_, hno, _⟩ | ⟨_, _, hmake⟩ | ⟨_, hno, _⟩
  · exact absurd hroom hno
  · exact hmake
  · exact absurd hroom hno

/-- What a store does once there is room for the file. -/
theorem store_eq {h h' : Host} {env : StoreEnv}
    {ask : ℕ → Except Abnormal (Option GetTestCaseChunkResponse)} {testcaseId : FluffiTestcaseID}
    {testcaseDir : String} (firstChunk : Bytes) (isLastChunk : Bool)
    (hmake : makeRoom h env.turns (generateTestcasePathAndFilename testcaseId testcaseDir) =
      .ok (some h')) :
    storeTestcaseFileOnDisk h env ask testcaseId testcaseDir firstChunk isLastChunk =
      if env.opens then
        if isLastChunk then .ok ⟨true,
          h'.write (generateTestcasePathAndFilename testcaseId testcaseDir) firstChunk, []⟩
        else (appendRemainingChunks ask (INT_MAX - 1) 1 firstChunk).map fun appended =>
          ⟨appended.success, h'.write (generateTestcasePathAndFilename testcaseId testcaseDir)
            appended.outstream, appended.requests⟩
      else .ok ⟨false, h', []⟩ := by
  rw [storeTestcaseFileOnDisk, hmake]
  cases env.opens <;> simp [Except.bind]

/-- Without room for the file, or when it cannot be opened, nothing is stored. -/
theorem store_refused {h : Host} {env : StoreEnv}
    {ask : ℕ → Except Abnormal (Option GetTestCaseChunkResponse)} {testcaseId : FluffiTestcaseID}
    {testcaseDir : String} {firstChunk : Bytes} {isLastChunk : Bool} {stored : Stored}
    (hno : ¬ (HasRoom h env.turns (generateTestcasePathAndFilename testcaseId testcaseDir) ∧
      env.opens = true))
    (hs : storeTestcaseFileOnDisk h env ask testcaseId testcaseDir firstChunk isLastChunk =
      .ok stored) : stored.success = false := by
  rcases makeRoom_cases h env.turns (generateTestcasePathAndFilename testcaseId testcaseDir) with
    ⟨_, _, hmake⟩ | ⟨_, hroom, h', hmake⟩ | ⟨_, _, hmake⟩
  · rw [storeTestcaseFileOnDisk, hmake] at hs
    cases hs
  · rw [store_eq firstChunk isLastChunk hmake, if_neg fun hopens => hno ⟨hroom, hopens⟩] at hs
    rw [← Except.ok.inj hs]
  · rw [storeTestcaseFileOnDisk, hmake] at hs
    rw [← Except.ok.inj hs]

/-! ### Stores -/

section Store

variable {h : Host} {env : StoreEnv}
  {ask : ℕ → Except Abnormal (Option GetTestCaseChunkResponse)} {testcaseId : FluffiTestcaseID}
  {testcaseDir : String}

/-- A store returns true unless the room, the file or the answer to a request it
reaches is missing, or it never returns. -/
theorem store_success_iff (firstChunk : Bytes) (isLastChunk : Bool) :
    (∀ stored, storeTestcaseFileOnDisk h env ask testcaseId testcaseDir firstChunk isLastChunk =
      .ok stored → stored.success = true) ↔
    KeepsWaiting h env.turns (generateTestcasePathAndFilename testcaseId testcaseDir) ∨
      (HasRoom h env.turns (generateTestcasePathAndFilename testcaseId testcaseDir) ∧
        env.opens = true ∧ (isLastChunk = false → Answers ask 1)) := by
  rcases makeRoom_cases h env.turns (generateTestcasePathAndFilename testcaseId testcaseDir) with
    ⟨hwait, _, hmake⟩ | ⟨hwait, hroom, h', hmake⟩ | ⟨hwait, hroom, hmake⟩
  · rw [storeTestcaseFileOnDisk, hmake]
    exact iff_of_true (by simp [Except.bind]) (.inl hwait)
  · rw [store_eq firstChunk isLastChunk hmake]
    cases hopens : env.opens
    · simp [hwait]
    cases isLastChunk
    · have happend : (∀ appended, appendRemainingChunks ask (INT_MAX - 1) 1 firstChunk =
          .ok appended → appended.success = true) ↔ Answers ask 1 :=
        append_success_iff (by decide) firstChunk
      rw [if_pos rfl, if_neg (by decide)]
      cases hrun : appendRemainingChunks ask (INT_MAX - 1) 1 firstChunk with
      | error abnormal =>
        rw [hrun] at happend
        have hanswers : Answers ask 1 := happend.mp (by simp)
        exact iff_of_true (by simp [Except.map]) (.inr ⟨hroom, rfl, fun _ => hanswers⟩)
      | ok appended =>
        rw [hrun] at happend
        simpa [Except.map, hwait, hroom] using happend
    · exact iff_of_true (by simp) (.inr ⟨hroom, rfl, by simp⟩)
  · rw [storeTestcaseFileOnDisk, hmake]
    simp [Except.bind, hwait, hroom]

/-- A store returns unless it waits for the file to be deleted or its loop does not
get to its end. -/
theorem store_returns_iff (firstChunk : Bytes) (isLastChunk : Bool) :
    (∃ stored, storeTestcaseFileOnDisk h env ask testcaseId testcaseDir firstChunk isLastChunk =
      .ok stored) ↔
    ¬ KeepsWaiting h env.turns (generateTestcasePathAndFilename testcaseId testcaseDir) ∧
      (HasRoom h env.turns (generateTestcasePathAndFilename testcaseId testcaseDir) →
        env.opens = true → isLastChunk = false → Finishes ask 1) := by
  rcases makeRoom_cases h env.turns (generateTestcasePathAndFilename testcaseId testcaseDir) with
    ⟨hwait, _, hmake⟩ | ⟨hwait, hroom, h', hmake⟩ | ⟨hwait, hroom, hmake⟩
  · rw [storeTestcaseFileOnDisk, hmake]
    exact iff_of_false (by simp [Except.bind]) fun hcond => hcond.1 hwait
  · rw [store_eq firstChunk isLastChunk hmake]
    cases hopens : env.opens
    · simp [hwait]
    cases isLastChunk
    · rw [if_pos rfl, if_neg (by decide), ← append_returns_iff (INT_MAX - 1) (by decide) firstChunk]
      cases appendRemainingChunks ask (INT_MAX - 1) 1 firstChunk <;>
        simp [Except.map, hwait, hroom]
    · simp [hwait]
  · rw [storeTestcaseFileOnDisk, hmake]
    simp [Except.bind, hwait, hroom]

/-- The bytes of a testcase that is sent like this. -/
def Received (ask : ℕ → Except Abnormal (Option GetTestCaseChunkResponse)) (firstChunk : Bytes)
    (isLastChunk : Bool) (content : Bytes) : Prop :=
  if isLastChunk then firstChunk = content
  else ∃ rest, Fetches ask 1 rest ∧ firstChunk ++ rest = content

/-- A successful store has written the bytes that were sent. -/
theorem store_received (firstChunk : Bytes) (isLastChunk : Bool) (content : Bytes) :
    (∃ stored, storeTestcaseFileOnDisk h env ask testcaseId testcaseDir firstChunk isLastChunk =
        .ok stored ∧ stored.success = true ∧
      stored.host.files (generateTestcasePathAndFilename testcaseId testcaseDir) = some content) ↔
    HasRoom h env.turns (generateTestcasePathAndFilename testcaseId testcaseDir) ∧
      env.opens = true ∧ Received ask firstChunk isLastChunk content := by
  rcases makeRoom_cases h env.turns (generateTestcasePathAndFilename testcaseId testcaseDir) with
    ⟨_, hroom, hmake⟩ | ⟨_, hroom, h', hmake⟩ | ⟨_, hroom, hmake⟩
  · simp [storeTestcaseFileOnDisk, hmake, Except.bind, hroom]
  · rw [store_eq firstChunk isLastChunk hmake]
    cases hopens : env.opens
    · simp
    cases isLastChunk
    · rw [if_pos rfl, if_neg (by decide), Received, if_neg (by decide),
        ← append_fetches (INT_MAX - 1) (by decide)]
      cases appendRemainingChunks ask (INT_MAX - 1) 1 firstChunk <;> simp [Except.map, hroom]
    · simp [Received, hroom]
  · simp [storeTestcaseFileOnDisk, hmake, Except.bind, hroom]

theorem store_written {firstChunk : Bytes} {isLastChunk : Bool} {stored : Stored}
    (hs : storeTestcaseFileOnDisk h env ask testcaseId testcaseDir firstChunk isLastChunk =
      .ok stored) (hsuccess : stored.success = true) :
    ∃ content, stored.host.files (generateTestcasePathAndFilename testcaseId testcaseDir) =
      some content := by
  by_cases hopen : HasRoom h env.turns (generateTestcasePathAndFilename testcaseId testcaseDir) ∧
      env.opens = true
  · obtain ⟨h', hmake⟩ := hopen.1.makeRoom
    rw [store_eq firstChunk isLastChunk hmake, if_pos hopen.2] at hs
    cases isLastChunk
    · rw [if_neg (by decide)] at hs
      obtain ⟨appended, _, rfl⟩ := map_eq_ok hs
      exact ⟨appended.outstream, Host.write_files ..⟩
    · rw [if_pos rfl] at hs
      rw [← Except.ok.inj hs]
      exact ⟨firstChunk, Host.write_files ..⟩
  · rw [store_refused hopen hs] at hsuccess
    cases hsuccess

end Store

end Fluffi.Shared
