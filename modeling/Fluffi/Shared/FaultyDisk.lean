import Fluffi.Shared.ReceivedFiles

/-! A transfer from a disk on which the file may be missing, cut short or hard to
read at any request, over a network that may lose any request, with any values left
in uninitialised memory. Proved: a load assigns the flag exactly when the file
opens and the chunk number is valid; and no value left in memory can make the
receiver keep a wrong file, or loop on, exactly when every request it reaches is
served. -/

namespace Fluffi.Shared

open Systems

/-- The sender's file at each request: missing, or a part of its content from the
beginning on. -/
structure FaultyFile (content : Bytes) where
  view : ℕ → Option FileView
  shorter : ∀ k ifs, view k = some ifs → ifs.content <+: content

/-- The sender whose disk holds only that file. -/
def FaultyFile.run {content : Bytes} (file : FaultyFile content) (path : String)
    (lost : ℕ → Bool) (leftover : ℕ → Leftover) : SenderRun :=
  ⟨fun k f => if f = path then file.view k else none, leftover, lost⟩

/-- What the receiver gets when request `k` is served. -/
def FaultyFile.received (C : ℕ) {content : Bytes} (file : FaultyFile content)
    (leftover : ℕ → Leftover) (k : ℕ) : Bytes :=
  receivedChunk C content k (file.view k) (leftover k).heap

/-- The outcome of a transfer is honest: success means that the sender had the file
and the receiver has its complete content, and otherwise the receiver gets false. -/
def Honest {content : Bytes} (file : FaultyFile content) (filename : String) :
    Except Abnormal Stored → Prop
  | .ok stored => stored.success = true →
      (file.view 0).isSome ∧ stored.host.files filename = some content
  | .error _ => False

/-- No request up to `k` is lost. -/
def Arrives (lost : ℕ → Bool) (k : ℕ) : Prop := ∀ j, 1 ≤ j → j ≤ k → lost j = false

/-- Every request that is reached is served, and if none is lost, the reads deliver
and the chunk numbers suffice. -/
structure Reliable (C : ℕ) {content : Bytes} (file : FaultyFile content) (lost : ℕ → Bool) :
    Prop where
  served : ∀ k < chunkCount C content.length, k ≤ INT_MAX → Arrives lost k →
    Serves C content.length k (file.view k)
  complete : Arrives lost (min (chunkCount C content.length - 1) INT_MAX) →
    chunkCount C content.length ≤ INT_MAX ∧
      ∀ k < chunkCount C content.length, Readable C content k (file.view k)

theorem exists_first_lost {lost : ℕ → Bool} {k : ℕ} (h : ¬ Arrives lost k) :
    ∃ m < k, lost (m + 1) = true ∧ Arrives lost m := by
  induction k with
  | zero => exact absurd (fun j h₁ h₂ => by omega) h
  | succ k ih =>
    by_cases hk : Arrives lost k
    · refine ⟨k, by omega, ?_, hk⟩
      by_contra hne
      apply h
      intro j h₁ h₂
      by_cases hj : j = k + 1
      · simpa [hj] using hne
      · exact hk j h₁ (by omega)
    · obtain ⟨m, hm, hfirst⟩ := ih hk
      exact ⟨m, by omega, hfirst⟩

variable {C : ℕ} {content : Bytes} {file : FaultyFile content} {lost : ℕ → Bool}
  {leftover : ℕ → Leftover} {sender : ChunkSender} {testcaseId : FluffiTestcaseID}

/-- The path at the sender. -/
def ChunkSender.path (sender : ChunkSender) (testcaseId : FluffiTestcaseID) : String :=
  generateTestcasePathAndFilename testcaseId sender.m_testcaseDir

theorem chunk_length_lt (hsmall : C < 2 ^ 32) (k : ℕ) : (chunk C content k).length < 2 ^ 32 := by
  rw [chunk_length]
  omega

theorem faulty_disk (file : FaultyFile content) (lost : ℕ → Bool) (leftover : ℕ → Leftover)
    (sender : ChunkSender) (testcaseId : FluffiTestcaseID) (k : ℕ) :
    (file.run (sender.path testcaseId) lost leftover).disk k
      (generateTestcasePathAndFilename testcaseId sender.m_testcaseDir) = file.view k := if_pos rfl

section Run

variable (hC : 0 < C) (hsmall : C < 2 ^ 32)

include hC hsmall

theorem served_load {disk : Disk} {testcaseDir : String} {k : ℕ}
    (hview : disk (generateTestcasePathAndFilename testcaseId testcaseDir) = file.view k)
    (hk : k < chunkCount C content.length)
    (hserves : Serves C content.length k (file.view k)) (heap : ℕ → UInt8) :
    loadTestcaseChunkInMemory C disk heap testcaseId testcaseDir k =
      .ok (receivedChunk C content k (file.view k) heap,
        some (decide (k + 1 = chunkCount C content.length))) :=
  hserves.load hC hview (file.shorter k) hk (chunk_length_lt hsmall k) heap

/-- When a request is not served and the flag was left set, the transfer ends there
with less than the whole content. -/
theorem unserved_load {disk : Disk} {testcaseDir : String} {k : ℕ}
    (hview : disk (generateTestcasePathAndFilename testcaseId testcaseDir) = file.view k)
    (hk : k < chunkCount C content.length)
    (hserves : ¬ Serves C content.length k (file.view k)) (heap : ℕ → UInt8) :
    ∃ data assigned,
      loadTestcaseChunkInMemory C disk heap testcaseId testcaseDir k = .ok (data, assigned) ∧
      assigned.getD true = true ∧
      ((k = 0 ∧ file.view k = none) ∨ k * C + data.length < content.length) := by
  have hbegin := (lt_chunkCount hC _ _).mp hk
  cases hv : file.view k with
  | none =>
    refine ⟨[], none, loadTestcaseChunk_missing C heap k (hview.trans hv), rfl, ?_⟩
    rw [List.length_nil, Nat.add_zero]
    tauto
  | some ifs =>
    have hpart := (file.shorter k ifs hv).length_le
    have hshort : ifs.content.length ≤ (k + 1) * C ∧ ifs.content.length < content.length := by
      unfold Serves at hserves
      rw [hv] at hserves
      by_cases hmore : k + 1 < chunkCount C content.length
      · have hle : ifs.content.length ≤ (k + 1) * C := by
          rw [← not_lt]
          exact fun hlt => hserves ⟨ifs, rfl, by rwa [if_pos hmore]⟩
        have hend := (succ_lt_chunkCount hC _ _).mp hmore
        omega
      · have hne : ifs.content.length ≠ content.length := fun heq =>
          hserves ⟨ifs, rfl, by rwa [if_neg hmore]⟩
        have hend := le_chunkCount_mul hC content.length
        have hlast : chunkCount C content.length = k + 1 := by omega
        rw [hlast] at hend
        omega
    by_cases hvalid : k * C ≤ ifs.content.length
    · refine ⟨_, _, loadTestcaseChunk_ok heap (hview.trans hv) hvalid
        (chunk_length_lt hsmall k), ?_, .inr ?_⟩
      · rw [decide_eq_true hshort.1]
        rfl
      · have hgot := List.length_take_le ifs.readLimit (chunk C ifs.content k)
        rw [List.length_take] at hgot
        rw [buffer_length heap (by rw [List.length_take]; omega), chunk_length]
        omega
    · have hbeyond : (k : ℤ) * C > ifs.content.length := by
        rw [gt_iff_lt, ← Nat.cast_mul]
        exact_mod_cast not_le.mp hvalid
      refine ⟨[], none, loadTestcaseChunk_invalid heap (hview.trans hv) hbeyond, rfl, .inr ?_⟩
      rw [List.length_nil, Nat.add_zero]
      rcases hbegin with rfl | hlt
      · omega
      · exact hlt

/-- A served request that arrives is answered with its chunk. -/
theorem served_ask (leftover : ℕ → Leftover) (sender : ChunkSender)
    (testcaseId : FluffiTestcaseID) {k : ℕ} (hk : k < chunkCount C content.length)
    (hlost : lost k = false)
    (hserves : Serves C content.length k (file.view k)) :
    (file.run (sender.path testcaseId) lost leftover).ask C sender testcaseId k =
      .ok (some ⟨k, file.received C leftover k,
        decide (k + 1 = chunkCount C content.length)⟩) := by
  have hl : (file.run (sender.path testcaseId) lost leftover).lost k = false := hlost
  rw [SenderRun.ask, hl, if_neg (by decide), handleGetTestcaseChunkRequest,
    served_load hC hsmall (faulty_disk file lost leftover sender testcaseId k) hk hserves]
  rfl

theorem unserved_ask (sender : ChunkSender) (testcaseId : FluffiTestcaseID) {k : ℕ}
    (hk : k < chunkCount C content.length) (hlost : lost k = false)
    (hserves : ¬ Serves C content.length k (file.view k))
    (hflag : (leftover k).isLastChunk = true) :
    ∃ data, (file.run (sender.path testcaseId) lost leftover).ask C sender testcaseId k =
        .ok (some ⟨k, data, true⟩) ∧
      ((k = 0 ∧ file.view k = none) ∨ k * C + data.length < content.length) := by
  have hl : (file.run (sender.path testcaseId) lost leftover).lost k = false := hlost
  obtain ⟨data, assigned, hload, hset, hshort⟩ := unserved_load hC hsmall
    (faulty_disk file lost leftover sender testcaseId k) hk hserves
    (leftover k).heap
  refine ⟨data, ?_, hshort⟩
  rw [← hflag] at hset
  have hload' : loadTestcaseChunkInMemory C
      ((file.run (sender.path testcaseId) lost leftover).disk k)
      ((file.run (sender.path testcaseId) lost leftover).leftover k).heap testcaseId
      sender.m_testcaseDir k = .ok (data, assigned) := hload
  rw [SenderRun.ask, hl, if_neg (by decide), handleGetTestcaseChunkRequest, hload']
  show Except.ok (some (GetTestCaseChunkResponse.mk k data
    (assigned.getD (leftover k).isLastChunk))) = _
  rw [hset, hflag]

/-- The transfer once the first request was served. -/
theorem served_transfer {h : Host} {env : StoreEnv} {testcaseDir : String}
    (hserves : Serves C content.length 0 (file.view 0)) :
    transfer C sender (file.run (sender.path testcaseId) lost leftover) h env testcaseId
        testcaseDir =
      storeTestcaseFileOnDisk h env
        ((file.run (sender.path testcaseId) lost leftover).ask C sender testcaseId) testcaseId
        testcaseDir (file.received C leftover 0)
        (decide (1 = chunkCount C content.length)) := by
  have hload := served_load hC hsmall (faulty_disk file lost leftover sender testcaseId 0)
    (chunkCount_pos _) hserves (leftover 0).heap
  simp only [Nat.cast_zero, Nat.zero_add] at hload
  have hheap : ((file.run (sender.path testcaseId) lost leftover).leftover 0).heap =
      (leftover 0).heap := rfl
  rw [transfer, hheap, hload]
  rfl

end Run

/-! ### Reliable requests make an honest outcome -/

/-- The bytes the receiver has written when no request was lost. -/
theorem flatMap_received_length (file : FaultyFile content) (leftover : ℕ → Leftover) {m : ℕ}
    (hm : m * C ≤ content.length) :
    ((List.range m).flatMap (file.received C leftover)).length = m * C := by
  have hlen : ((List.range m).flatMap (chunk C content)).length = m * C := by
    rw [flatMap_chunk, List.length_take_of_le hm]
  rw [← hlen, List.length_flatMap, List.length_flatMap]
  simp only [FaultyFile.received, receivedChunk_length]

theorem flatMap_received (leftover : ℕ → Leftover)
    (hread : ∀ k < chunkCount C content.length, Readable C content k (file.view k)) (hC : 0 < C) :
    (List.range (chunkCount C content.length)).flatMap (file.received C leftover) = content := by
  conv_rhs => rw [← flatMap_chunks hC content]
  refine List.flatMap_congr fun k hk => ?_
  exact (hread k (List.mem_range.mp hk)).receivedChunk _

section Outcome

variable {h h' : Host} {env : StoreEnv} {testcaseDir : String} (hC : 0 < C) (hsmall : C < 2 ^ 32)
  (hmake : makeRoom h env.turns (generateTestcasePathAndFilename testcaseId testcaseDir) =
    .ok (some h')) (hopens : env.opens = true)

include hC hsmall

/-- While requests arrive and are served, the receiver is told to go on. -/
theorem ask_more (m : ℕ) (hm : m + 1 < chunkCount C content.length) (harrives : Arrives lost m)
    (hserved : ∀ j ≤ m, Serves C content.length j (file.view j)) (leftover : ℕ → Leftover)
    (sender : ChunkSender) (testcaseId : FluffiTestcaseID) :
    ∀ j, 1 ≤ j → j < m + 1 →
      (file.run (sender.path testcaseId) lost leftover).ask C sender testcaseId j =
        .ok (some ⟨j, file.received C leftover j, false⟩) := by
  intro j h₁ h₂
  rw [served_ask hC hsmall leftover sender testcaseId (by omega) (harrives j h₁ (by omega))
    (hserved j (by omega)),
    decide_eq_false (by omega)]

include hmake hopens

/-- A transfer of several chunks is the loop at the receiver. -/
theorem append_transfer (hserves : Serves C content.length 0 (file.view 0))
    (hN : 1 < chunkCount C content.length) (leftover : ℕ → Leftover) :
    transfer C sender (file.run (sender.path testcaseId) lost leftover) h env testcaseId
        testcaseDir =
      (appendRemainingChunks
        ((file.run (sender.path testcaseId) lost leftover).ask C sender testcaseId) (INT_MAX - 1) 1
        (file.received C leftover 0)).map fun appended =>
          ⟨appended.success, h'.write (generateTestcasePathAndFilename testcaseId testcaseDir)
            appended.outstream, appended.requests⟩ := by
  rw [served_transfer hC hsmall hserves, store_eq _ _ hmake, if_pos hopens,
    decide_eq_false (by omega), if_neg (by decide)]

/-- When every request is served and none is lost, the receiver stores what it received. -/
theorem complete_transfer (sender : ChunkSender)
    (hserved : ∀ k < chunkCount C content.length, Serves C content.length k (file.view k))
    (harrives : Arrives lost (chunkCount C content.length - 1))
    (hmax : chunkCount C content.length ≤ INT_MAX) (leftover : ℕ → Leftover) :
    ∃ requests, transfer C sender (file.run (sender.path testcaseId) lost leftover) h env testcaseId
        testcaseDir = .ok ⟨true, h'.write (generateTestcasePathAndFilename testcaseId testcaseDir)
          ((List.range (chunkCount C content.length)).flatMap (file.received C leftover)),
        requests⟩ := by
  have hzero := hserved 0 (chunkCount_pos _)
  by_cases hone : 1 = chunkCount C content.length
  · refine ⟨[], ?_⟩
    rw [served_transfer hC hsmall hzero, store_eq _ _ hmake, if_pos hopens,
      if_pos (decide_eq_true hone), ← hone, List.range_one, List.flatMap_singleton]
  have hN : 1 < chunkCount C content.length := lt_of_le_of_ne (chunkCount_pos _) hone
  obtain ⟨m, hm⟩ : ∃ m, chunkCount C content.length = m + 2 := ⟨_, (Nat.sub_add_cancel hN).symm⟩
  have hlast : (file.run (sender.path testcaseId) lost leftover).ask C sender testcaseId (m + 1) =
      .ok (some ⟨(m + 1 : ℕ),
        file.received C leftover (m + 1), true⟩) := by
    rw [served_ask hC hsmall leftover sender testcaseId (by omega)
      (harrives _ (by omega) (by omega)) (hserved _ (by omega)),
      decide_eq_true (by omega)]
  have hmore := ask_more hC hsmall m (by omega) (fun j h₁ h₂ => harrives j h₁ (by omega))
    (fun j hj => hserved j (by omega)) leftover sender testcaseId
  rw [append_transfer hC hsmall hmake hopens hzero hN, append_flagged (by omega) hmore hlast,
    head_append_flatMap, hm, List.range_succ (n := m + 1), List.flatMap_append,
    List.flatMap_singleton]
  exact ⟨_, rfl⟩

theorem Reliable.honest (sender : ChunkSender) (hr : Reliable C file lost)
    (leftover : ℕ → Leftover) :
    Honest file (generateTestcasePathAndFilename testcaseId testcaseDir)
      (transfer C sender (file.run (sender.path testcaseId) lost leftover) h env testcaseId
        testcaseDir) := by
  have hzero : Serves C content.length 0 (file.view 0) :=
    hr.served 0 (chunkCount_pos _) (Nat.zero_le _) (fun j h₁ h₂ => by omega)
  have hthere : (file.view 0).isSome := by
    obtain ⟨ifs, hifs, _⟩ := hzero
    simp [hifs]
  by_cases hall : Arrives lost (min (chunkCount C content.length - 1) INT_MAX)
  · obtain ⟨hmax, hread⟩ := hr.complete hall
    have harrives : Arrives lost (chunkCount C content.length - 1) := fun j h₁ h₂ =>
      hall j h₁ (by omega)
    obtain ⟨requests, heq⟩ := complete_transfer hC hsmall hmake hopens sender
      (fun k hk => hr.served k hk (by omega) fun j h₁ h₂ => harrives j h₁ (by omega)) harrives hmax
      leftover
    rw [heq, flatMap_received leftover hread hC]
    exact fun _ => ⟨hthere, Host.write_files _ _ _⟩
  · obtain ⟨m, hm, hlost, harrives⟩ := exists_first_lost hall
    have hask : (file.run (sender.path testcaseId) lost leftover).ask C sender testcaseId (m + 1) =
        .ok none := if_pos hlost
    have hmore := ask_more hC hsmall m (by omega) harrives (fun j hj => hr.served j (by omega)
      (by omega) fun i h₁ h₂ => harrives i h₁ (by omega)) leftover sender testcaseId
    obtain ⟨outstream, requests, happend⟩ := append_lost (by omega) hmore hask
    rw [append_transfer hC hsmall hmake hopens hzero (by omega), happend]
    exact fun hfalse => absurd hfalse Bool.false_ne_true

/-- A request that arrives and is not served lets a set flag end the transfer with a
wrong file. -/
theorem unserved_dishonest {k : ℕ} (hk : k < chunkCount C content.length) (hmax : k ≤ INT_MAX)
    (harrives : Arrives lost k) (hbefore : ∀ j < k, Serves C content.length j (file.view j))
    (hserves : ¬ Serves C content.length k (file.view k)) (leftover : ℕ → Leftover)
    (hflag : ∀ j, (leftover j).isLastChunk = true) (sender : ChunkSender) :
    ¬ Honest file (generateTestcasePathAndFilename testcaseId testcaseDir)
      (transfer C sender (file.run (sender.path testcaseId) lost leftover) h env testcaseId
        testcaseDir) := by
  cases k with
  | zero =>
    obtain ⟨data, assigned, hload, hset, hshort⟩ := unserved_load hC hsmall
      (faulty_disk file lost leftover sender testcaseId 0) hk hserves (leftover 0).heap
    have hstored : transfer C sender (file.run (sender.path testcaseId) lost leftover) h env
        testcaseId testcaseDir = .ok ⟨true,
          h'.write (generateTestcasePathAndFilename testcaseId testcaseDir) data, []⟩ := by
      have hheap : (file.run (sender.path testcaseId) lost leftover).leftover 0 = leftover 0 := rfl
      rw [Nat.cast_zero] at hload
      rw [transfer, hheap, hload, hflag]
      show storeTestcaseFileOnDisk _ _ _ _ _ _ (assigned.getD true) = _
      rw [store_eq _ _ hmake, if_pos hopens, if_pos hset]
    rw [hstored]
    intro hhonest
    obtain ⟨hthere, hfile⟩ := hhonest rfl
    rw [Host.write_files, Option.some.injEq] at hfile
    rcases hshort with ⟨_, hnone⟩ | hlt
    · simp [hnone] at hthere
    · rw [hfile] at hlt
      omega
  | succ m =>
    have hzero := hbefore 0 (by omega)
    have hmore := ask_more hC hsmall m hk (fun j h₁ h₂ => harrives j h₁ (by omega))
      (fun j hj => hbefore j (by omega)) leftover sender testcaseId
    obtain ⟨data, hask, hshort⟩ := unserved_ask hC hsmall sender testcaseId hk
      (harrives (m + 1) (by omega) le_rfl) hserves (hflag (m + 1))
    rw [append_transfer hC hsmall hmake hopens hzero (by omega)]
    by_cases hlast : m + 1 = INT_MAX
    · rw [append_overflow (fun j h₁ h₂ => hmore j h₁ (by omega)) (hlast ▸ hask)]
      exact fun hfalse => hfalse
    · rw [append_flagged (by omega) hmore hask, head_append_flatMap]
      intro hhonest
      obtain ⟨_, hfile⟩ := hhonest rfl
      rw [Host.write_files, Option.some.injEq] at hfile
      rcases hshort with ⟨hfalse, _⟩ | hlt
      · omega
      · have hlen := flatMap_received_length file leftover (m := m + 1) (C := C) (by omega)
        rw [← hfile, List.length_append, hlen] at hlt
        omega

end Outcome

section Outcome

variable {h h' : Host} {env : StoreEnv} {testcaseDir : String} (hC : 0 < C) (hsmall : C < 2 ^ 32)
  (hmake : makeRoom h env.turns (generateTestcasePathAndFilename testcaseId testcaseDir) =
    .ok (some h')) (hopens : env.opens = true)

include hC hsmall hmake hopens

/-- If no value left in memory makes the outcome dishonest, the requests are reliable. -/
theorem Reliable.of_honest (sender : ChunkSender)
    (hall : ∀ leftover, Honest file (generateTestcasePathAndFilename testcaseId testcaseDir)
      (transfer C sender (file.run (sender.path testcaseId) lost leftover) h env testcaseId
        testcaseDir)) : Reliable C file lost := by
  have hserved : ∀ k < chunkCount C content.length, k ≤ INT_MAX → Arrives lost k →
      Serves C content.length k (file.view k) := by
    intro k
    induction k using Nat.strong_induction_on with
    | _ k ih =>
      intro hk hmax harrives
      by_contra hserves
      exact unserved_dishonest hC hsmall hmake hopens hk hmax harrives
        (fun j hj => ih j hj (by omega) (by omega) fun i h₁ h₂ => harrives i h₁ (by omega)) hserves
        (fun _ => ⟨true, fun _ => 0⟩) (fun _ => rfl) sender (hall _)
  refine ⟨hserved, fun harrives => ?_⟩
  have hmax : chunkCount C content.length ≤ INT_MAX := by
    by_contra hmax
    have hpos : 0 < INT_MAX := by decide
    have harr : ∀ k ≤ INT_MAX, Arrives lost k := fun k hk j h₁ h₂ => harrives j h₁ (by omega)
    have hmore := ask_more hC hsmall (INT_MAX - 1) (by omega) (harr _ (by omega))
      (fun j hj => hserved j (by omega) (by omega) (harr j (by omega)))
      (fun _ => ⟨false, fun _ => 0⟩) sender testcaseId
    have hlast := served_ask hC hsmall (fun _ => ⟨false, fun _ => 0⟩) sender testcaseId
      (not_le.mp hmax) (harr _ le_rfl _ hpos le_rfl)
      (hserved _ (not_le.mp hmax) le_rfl (harr _ le_rfl))
    have hhonest := hall fun _ => ⟨false, fun _ => 0⟩
    rw [append_transfer hC hsmall hmake hopens (hserved 0 (by omega) (by omega) (harr 0 (by omega)))
      (by omega), append_overflow (fun j h₁ h₂ => hmore j h₁ (by omega)) hlast] at hhonest
    exact hhonest
  have hall' : ∀ k < chunkCount C content.length, Serves C content.length k (file.view k) :=
    fun k hk => hserved k hk (by omega) fun j h₁ h₂ => harrives j h₁ (by omega)
  refine ⟨hmax, fun k hk => ?_⟩
  set leftover : ℕ → Leftover := fun k => ⟨false, fun i => (chunk C content k).getD i 0 + 1⟩
  obtain ⟨requests, heq⟩ := complete_transfer hC hsmall hmake hopens sender hall'
    (fun j h₁ h₂ => harrives j h₁ (by omega)) hmax leftover
  have hhonest := hall leftover
  rw [heq] at hhonest
  obtain ⟨_, hfile⟩ := hhonest rfl
  rw [Host.write_files, Option.some.injEq] at hfile
  exact le_of_buffer_eq (flatMap_injOn (fun j _ => receivedChunk_length C content j _ _)
    (hfile.trans (flatMap_chunks hC content).symm) k hk)

end Outcome

/-! ### Every load and every transfer -/

/-- Every load returns, and assigns the flag exactly when the file opens and the
chunk begins inside it. No value left in memory makes a transfer store a wrong file
or go on for ever exactly when the receiver does not wait for ever and, if it takes
the file, every request it reaches is served. -/
theorem transfer_honest_iff (testcaseId : FluffiTestcaseID) (testcaseDir : String) :
    (∀ (disk : Disk) (heap : ℕ → UInt8) (chunkNum : ℤ), ∃ data assigned,
      loadTestcaseChunkInMemory chunkSizeInBytes disk heap testcaseId testcaseDir chunkNum =
        .ok (data, assigned) ∧
      (assigned.isSome ↔ ∃ ifs,
        disk (generateTestcasePathAndFilename testcaseId testcaseDir) = some ifs ∧
          chunkNum * chunkSizeInBytes ≤ ifs.content.length)) ∧
    ∀ (content : Bytes) (file : FaultyFile content) (lost : ℕ → Bool) (sender : ChunkSender)
      (h : Host) (env : StoreEnv),
      (∀ leftover, Honest file (generateTestcasePathAndFilename testcaseId testcaseDir)
        (transfer chunkSizeInBytes sender (file.run (sender.path testcaseId) lost leftover) h env
          testcaseId testcaseDir)) ↔
      ¬ KeepsWaiting h env.turns (generateTestcasePathAndFilename testcaseId testcaseDir) ∧
        (HasRoom h env.turns (generateTestcasePathAndFilename testcaseId testcaseDir) ∧
          env.opens = true → Reliable chunkSizeInBytes file lost) := by
  refine ⟨fun disk heap chunkNum =>
    load_assigned chunkSizeInBytes_lt disk heap testcaseId testcaseDir chunkNum, ?_⟩
  intro content file lost sender h env
  have hC : 0 < chunkSizeInBytes := by decide
  have hstore : ∀ leftover, ∃ firstChunk isLastChunk,
      transfer chunkSizeInBytes sender (file.run (sender.path testcaseId) lost leftover) h env
        testcaseId testcaseDir = storeTestcaseFileOnDisk h env
          ((file.run (sender.path testcaseId) lost leftover).ask chunkSizeInBytes sender testcaseId)
          testcaseId testcaseDir firstChunk isLastChunk := by
    intro leftover
    obtain ⟨data, assigned, hload, _⟩ := load_assigned chunkSizeInBytes_lt
      ((file.run (sender.path testcaseId) lost leftover).disk 0)
      ((file.run (sender.path testcaseId) lost leftover).leftover 0).heap testcaseId
      sender.m_testcaseDir 0
    exact ⟨data, _, by rw [transfer, hload]; rfl⟩
  rcases makeRoom_cases h env.turns (generateTestcasePathAndFilename testcaseId testcaseDir) with
    ⟨hwait, _, hmake⟩ | ⟨hwait, hroom, h', hmake⟩ | ⟨hwait, hroom, hmake⟩
  · refine iff_of_false (fun hall => ?_) fun hcond => hcond.1 hwait
    obtain ⟨_, _, heq⟩ := hstore fun _ => ⟨false, fun _ => 0⟩
    have hhonest := hall fun _ => ⟨false, fun _ => 0⟩
    rw [heq, storeTestcaseFileOnDisk, hmake] at hhonest
    exact hhonest
  · by_cases hopens : env.opens = true
    · exact ⟨fun hall => ⟨hwait, fun _ =>
          Reliable.of_honest hC chunkSizeInBytes_lt hmake hopens sender hall⟩,
        fun hcond leftover => Reliable.honest hC chunkSizeInBytes_lt hmake hopens sender
          (hcond.2 ⟨hroom, hopens⟩) leftover⟩
    · refine iff_of_true (fun leftover => ?_) ⟨hwait, fun haccepts => absurd haccepts.2 hopens⟩
      obtain ⟨_, _, heq⟩ := hstore leftover
      rw [heq, store_eq _ _ hmake, if_neg hopens]
      exact fun hfalse => absurd hfalse Bool.false_ne_true
  · refine iff_of_true (fun leftover => ?_) ⟨hwait, fun haccepts => absurd haccepts.1 hroom⟩
    obtain ⟨_, _, heq⟩ := hstore leftover
    rw [heq, storeTestcaseFileOnDisk, hmake]
    exact fun hfalse => absurd hfalse Bool.false_ne_true

/-- Three bytes that are gone when the sender opens the file. -/
def goneFile : FaultyFile [1, 2, 3] := ⟨fun _ => none, by simp⟩

/-- The load leaves the flag unassigned, and if it happens to be set the receiver
keeps an empty file. -/
theorem transfer_of_gone_file :
    loadTestcaseChunkInMemory chunkSizeInBytes (fun _ => none) (fun _ => 0)
      ⟨⟨"host:1", "guid"⟩, 1⟩ "sent" 0 = .ok ([], none) ∧
    ¬ Honest goneFile "received/guid-1"
      (transfer chunkSizeInBytes ⟨"sent", false⟩
        (goneFile.run "sent/guid-1" (fun _ => false) fun _ => ⟨true, fun _ => 0⟩)
        ⟨fun _ => none, ∅⟩ ⟨[], true⟩ ⟨⟨"host:1", "guid"⟩, 1⟩ "received") := by
  refine ⟨rfl, fun hhonest => ?_⟩
  have hthere : (goneFile.view 0).isSome = true := (hhonest rfl).1
  cases hthere

end Fluffi.Shared
