import Fluffi.Shared.ReceivedFiles

/-! A transfer from a steady disk over a network that loses nothing. Proved: it
takes one request for every chunk after the first, stores the file as it is and
lets it be loaded again, exactly when the length of the file fits 32 bits, the
number of chunks fits an `int`, and the receiver has room for the file and can
open it. -/

namespace Fluffi.Shared

open Systems

/-- The files stay as they are and no request is lost. -/
def SenderRun.steady (files : Host) (leftover : ℕ → Leftover) : SenderRun :=
  ⟨fun _ => files.disk, leftover, fun _ => false⟩

/-- What a lossless transfer of `content` comes to. -/
def Lossless (C : ℕ) (content : Bytes) (testcaseId : FluffiTestcaseID) (testcaseDir : String)
    (result : Except Abnormal Stored) : Prop :=
  ∃ stored, result = .ok stored ∧ stored.success = true ∧
    1 + stored.requests.length = max 1 (content.length ⌈/⌉ C) ∧
    (∀ k ∈ stored.requests, k * C ≤ content.length) ∧
    stored.host.files (generateTestcasePathAndFilename testcaseId testcaseDir) = some content ∧
    ∀ heap, loadTestcaseInMemory stored.host.disk heap testcaseId testcaseDir = .ok content

variable {C : ℕ} {content : Bytes} {sender : ChunkSender} {files : Host}
  {leftover : ℕ → Leftover} {testcaseId : FluffiTestcaseID}

/-- From right answers the loop completes the file, or runs out of chunk numbers. -/
theorem append_whole {ask : ℕ → Except Abnormal (Option GetTestCaseChunkResponse)} (hC : 0 < C)
    (hN : 1 < chunkCount C content.length)
    (hask : ∀ j < chunkCount C content.length, ask j =
      .ok (some ⟨j, chunk C content j, decide (j + 1 = chunkCount C content.length)⟩)) :
    appendRemainingChunks ask (INT_MAX - 1) 1 (chunk C content 0) =
      if chunkCount C content.length ≤ INT_MAX then
        .ok ⟨true, content, List.range' 1 (chunkCount C content.length - 1)⟩
      else .error .signedOverflow := by
  have hmore : ∀ j, j + 1 < chunkCount C content.length →
      ask j = .ok (some ⟨j, chunk C content j, false⟩) := by
    intro j hj
    rw [hask j (by omega), decide_eq_false (by omega)]
  by_cases hmax : chunkCount C content.length ≤ INT_MAX
  · obtain ⟨m, hm⟩ : ∃ m, chunkCount C content.length = m + 2 := ⟨_, (Nat.sub_add_cancel hN).symm⟩
    have hlast := hask (m + 1) (by omega)
    rw [decide_eq_true (by omega)] at hlast
    have hall : chunk C content 0 ++ (List.range' 1 m).flatMap (chunk C content) ++
        chunk C content (m + 1) = content := by
      have hrange := flatMap_chunks hC content
      rwa [hm, List.range_succ, List.flatMap_append, List.flatMap_singleton,
        ← head_append_flatMap] at hrange
    rw [if_pos hmax, append_flagged (by omega) (fun j _ hj => hmore j (by omega)) hlast, hall, hm]
    rfl
  · have hlast := hask INT_MAX (by omega)
    rw [if_neg hmax, append_overflow (fun j _ hj => hmore j (by omega)) hlast]

section Steady

variable (hC : 0 < C)
  (hfile : files.files (generateTestcasePathAndFilename testcaseId sender.m_testcaseDir) =
    some content)
  (hlen : content.length < 2 ^ 32)

include hC hfile hlen

/-- A steady disk answers every valid request with its chunk and the right flag. -/
theorem steady_load {k : ℕ} (hk : k < chunkCount C content.length) (heap : ℕ → UInt8) :
    loadTestcaseChunkInMemory C files.disk heap testcaseId sender.m_testcaseDir k =
      .ok (chunk C content k, some (decide (k + 1 = chunkCount C content.length))) := by
  have hd : files.disk (generateTestcasePathAndFilename testcaseId sender.m_testcaseDir) =
      some (.healthy content) := by
    rw [Host.disk, hfile]
    rfl
  have hle : (chunk C content k).length ≤ content.length := by
    rw [chunk_length]
    omega
  exact load_of_healthy hC hd hk (hle.trans_lt hlen) heap

theorem steady_ask (leftover : ℕ → Leftover) {k : ℕ} (hk : k < chunkCount C content.length) :
    (SenderRun.steady files leftover).ask C sender testcaseId k =
      .ok (some ⟨k, chunk C content k, decide (k + 1 = chunkCount C content.length)⟩) := by
  rw [SenderRun.ask, handleGetTestcaseChunkRequest, SenderRun.steady,
    steady_load hC hfile hlen hk]
  rfl

/-- The loop at the receiver completes the file, or runs out of chunk numbers. -/
theorem steady_append (hN : 1 < chunkCount C content.length) :
    appendRemainingChunks ((SenderRun.steady files leftover).ask C sender testcaseId)
        (INT_MAX - 1) 1 (chunk C content 0) =
      if chunkCount C content.length ≤ INT_MAX then
        .ok ⟨true, content, List.range' 1 (chunkCount C content.length - 1)⟩
      else .error .signedOverflow :=
  append_whole hC hN fun _ hj => steady_ask hC hfile hlen leftover hj

/-- A steady transfer hands the first chunk over with the right flag. -/
theorem steady_transfer {h : Host} {env : StoreEnv} {testcaseDir : String} :
    transfer C sender (.steady files leftover) h env testcaseId testcaseDir =
      storeTestcaseFileOnDisk h env ((SenderRun.steady files leftover).ask C sender testcaseId)
        testcaseId testcaseDir (chunk C content 0)
        (decide (1 = chunkCount C content.length)) := by
  have hload := steady_load hC hfile hlen (chunkCount_pos _) (leftover 0).heap
  rw [transfer, SenderRun.steady]
  simp only [Nat.cast_zero, Nat.zero_add] at hload
  rw [hload]
  rfl

/-- With room for it, the receiver ends up with the file, or runs out of chunk numbers. -/
theorem steady_stored {h h' : Host} {env : StoreEnv} {testcaseDir : String}
    (hmake : makeRoom h env.turns (generateTestcasePathAndFilename testcaseId testcaseDir) =
      .ok (some h')) (hopens : env.opens = true) :
    transfer C sender (.steady files leftover) h env testcaseId testcaseDir =
      if chunkCount C content.length ≤ INT_MAX then
        .ok ⟨true, h'.write (generateTestcasePathAndFilename testcaseId testcaseDir) content,
          List.range' 1 (chunkCount C content.length - 1)⟩
      else .error .signedOverflow := by
  rw [steady_transfer hC hfile hlen, store_eq _ _ hmake, if_pos hopens]
  by_cases hone : 1 = chunkCount C content.length
  · have hchunk : chunk C content 0 = content := by
      have hall := flatMap_chunks hC content
      rwa [← hone, List.range_one, List.flatMap_singleton] at hall
    rw [if_pos (decide_eq_true hone), hchunk, ← hone]
    rfl
  · have hN : 1 < chunkCount C content.length := lt_of_le_of_ne (chunkCount_pos _) hone
    rw [decide_eq_false hone, if_neg (by decide), steady_append hC hfile hlen hN]
    split <;> rfl

end Steady

/-- A stored file can be loaded again exactly when its length fits 32 bits. -/
theorem stored_load_iff {stored : Stored} {testcaseDir : String}
    (hstored : stored.host.files (generateTestcasePathAndFilename testcaseId testcaseDir) =
      some content) :
    (∀ heap, loadTestcaseInMemory stored.host.disk heap testcaseId testcaseDir = .ok content) ↔
      content.length < 2 ^ 32 := by
  have hd : stored.host.disk (generateTestcasePathAndFilename testcaseId testcaseDir) =
      some (.healthy content) := by
    rw [Host.disk, hstored]
    rfl
  exact ⟨fun hall => (loadTestcaseInMemory_healthy (fun _ => 0) hd).mp (hall _),
    fun hlen heap => (loadTestcaseInMemory_healthy heap hd).mpr hlen⟩

/-- A transfer from a steady disk that loses no message is lossless exactly when
the file length fits 32 bits, the number of chunks fits an `int`, and the receiver
has room for the file and can open it. -/
theorem transfer_lossless_iff {h : Host} {env : StoreEnv} {testcaseDir : String} (hC : 0 < C)
    (hfile : files.files (generateTestcasePathAndFilename testcaseId sender.m_testcaseDir) =
      some content) :
    Lossless C content testcaseId testcaseDir
        (transfer C sender (.steady files leftover) h env testcaseId testcaseDir) ↔
      content.length < 2 ^ 32 ∧ max 1 (content.length ⌈/⌉ C) ≤ INT_MAX ∧
        HasRoom h env.turns (generateTestcasePathAndFilename testcaseId testcaseDir) ∧
        env.opens = true := by
  by_cases hlen : content.length < 2 ^ 32
  swap
  · refine iff_of_false ?_ fun hcond => hlen hcond.1
    rintro ⟨stored, _, _, _, _, hstored, hall⟩
    exact hlen ((stored_load_iff hstored).mp hall)
  by_cases haccepts : HasRoom h env.turns (generateTestcasePathAndFilename testcaseId testcaseDir) ∧
      env.opens = true
  swap
  · refine iff_of_false ?_ fun hcond => haccepts hcond.2.2
    rintro ⟨stored, heq, hsuccess, _⟩
    rw [steady_transfer hC hfile hlen] at heq
    rw [store_refused haccepts heq] at hsuccess
    cases hsuccess
  obtain ⟨h', hmake⟩ := haccepts.1.makeRoom
  rw [steady_stored hC hfile hlen hmake haccepts.2]
  by_cases hmax : chunkCount C content.length ≤ INT_MAX
  · rw [if_pos hmax]
    have hwritten := Host.write_files h'
      (generateTestcasePathAndFilename testcaseId testcaseDir) content
    refine iff_of_true ⟨_, rfl, rfl, ?_, ?_, hwritten, (stored_load_iff hwritten).mpr hlen⟩
      ⟨hlen, hmax, haccepts⟩
    · rw [List.length_range']
      exact Nat.add_sub_cancel' (chunkCount_pos _)
    · intro k hk
      have hlt : k < chunkCount C content.length := by
        have hrange := List.mem_range'_1.mp hk
        omega
      rcases (lt_chunkCount hC content.length k).mp hlt with rfl | hlt <;> omega
  · rw [if_neg hmax]
    refine iff_of_false ?_ fun hcond => hmax hcond.2.1
    rintro ⟨stored, heq, _⟩
    cases heq

/-- A sender with a directory of its own. -/
def sampleSender : ChunkSender := ⟨"sent", false⟩

def sampleId : FluffiTestcaseID := ⟨⟨"host:1", "guid"⟩, 1⟩

def sampleLeftover : Leftover := ⟨false, fun _ => 0⟩

/-- Five bytes in chunks of two. -/
theorem transfer_lossless_five :
    Lossless 2 [1, 2, 3, 4, 5] sampleId "received"
      (transfer 2 sampleSender
        (.steady (Host.write ⟨fun _ => none, ∅⟩ "sent/guid-1" [1, 2, 3, 4, 5])
          fun _ => sampleLeftover)
        ⟨fun _ => none, ∅⟩ ⟨[], true⟩ sampleId "received") :=
  (transfer_lossless_iff (by decide) (by decide)).mpr
    ⟨by decide, by decide, .inl rfl, rfl⟩

/-- A file of four gibibytes cannot be loaded after the transfer: its length cast
to 32 bits is zero, and the read overflows the buffer. -/
theorem transfer_four_gibibytes :
    ¬ Lossless chunkSizeInBytes (List.replicate (2 ^ 32) 0) sampleId "received"
      (transfer chunkSizeInBytes sampleSender
        (.steady (Host.write ⟨fun _ => none, ∅⟩ "sent/guid-1" (List.replicate (2 ^ 32) 0))
          fun _ => sampleLeftover)
        ⟨fun _ => none, ∅⟩ ⟨[], true⟩ sampleId "received") := by
  rintro ⟨stored, _, _, _, _, hstored, hall⟩
  have hlen := (stored_load_iff hstored).mp hall
  rw [List.length_replicate] at hlen
  exact lt_irrefl _ hlen

end Fluffi.Shared
