import Fluffi.LocalManager.HandOut

/-! Downloads of one testcase from its temporary file. A generator that fetches
chunk by chunk is on track as long as it has the chunks up to where it is. It
leaves the track exactly at a request that does not find its chunk in the file, or
finds the file going on where the testcase does not or the other way round. -/

namespace Fluffi.LocalManager

open Shared Systems
open GarbageCollector (Hand CollectorStep collectGarbage markFileForDelete)

variable {C : ℕ} {row : InterestingTestcase} {testcaseTempDir : String}

/-! ### Writing the file -/

theorem length_writeAt (bytes : Bytes) (offset : ℕ) (piece : Bytes) :
    (writeAt bytes offset piece).length = max bytes.length (offset + piece.length) := by
  simp only [writeAt, List.length_append, List.length_take, List.length_replicate,
    List.length_drop]
  omega

/-- The next bytes of the content extend what is written of it. -/
theorem writeAt_take {content : Bytes} {offset : ℕ} (hoffset : offset ≤ content.length) (n : ℕ) :
    writeAt (content.take offset) offset ((content.drop offset).take n) =
      content.take (offset + ((content.drop offset).take n).length) := by
  have hlength : (content.take offset).length = offset := List.length_take_of_le hoffset
  have hbehind : (content.take offset).drop (offset + ((content.drop offset).take n).length) =
      [] := by
    apply List.drop_eq_nil_of_le
    rw [hlength]
    exact Nat.le_add_right _ _
  have hpiece : (content.drop offset).take ((content.drop offset).take n).length =
      (content.drop offset).take n := by
    rw [List.take_eq_take_iff, List.length_take]
    omega
  rw [writeAt, hbehind, hlength, Nat.sub_self, List.replicate_zero, List.append_nil,
    List.append_nil, List.take_take, min_self, List.take_add, hpiece]

/-! ### What a request should find -/

/-- The file has the chunk, and goes on behind it exactly if the testcase does. -/
def HasChunk (C : ℕ) (content : Bytes) (k : ℕ) (file : Option Bytes) : Prop :=
  ∃ bytes, file = some bytes ∧ chunk C bytes k = chunk C content k ∧
    (bytes.length ≤ (k + 1) * C ↔ content.length ≤ (k + 1) * C)

/-- The chunks up to the next one are there, and the last one makes the testcase complete. -/
def OnTrack (C : ℕ) (content : Bytes) : Sending → Prop
  | .downloading received chunkID =>
    chunkID < chunkCount C content.length ∧ received = content.take (chunkID * C)
  | .complete received => received = content
  | _ => True

/-- The step is a chunk request of sending `i`. -/
def Requests (i : ℕ) (s : HandOut) (e : ℕ × HandOutAction) (k : ℕ) : Prop :=
  ∃ received leftover, s.sending i = .downloading received k ∧ e = (i, .requestChunk leftover)

/-- What is always true of a download: less than the testcase is received, in chunks of at
most `C` bytes. -/
def Sized (C : ℕ) (content : Bytes) : Sending → Prop
  | .downloading received chunkID =>
    received.length ≤ chunkID * C ∧ received.length < content.length
  | .rewriting offset _ => offset ≤ content.length ∧ C < content.length
  | _ => True

/-- The answer from a file in which the chunk begins. -/
theorem request_file {s : HandOut} (leftover : Leftover) {k : ℕ} {bytes : Bytes}
    (hsmall : C < 2 ^ 32) (hfile : s.file = some bytes) (hk : k * C ≤ bytes.length) :
    handleGetTestcaseChunkRequest C ⟨testcaseTempDir, true⟩
      (s.disk (generateTestcasePathAndFilename row.id testcaseTempDir)) leftover row.id k =
    .ok (⟨k, chunk C bytes k, decide (bytes.length ≤ (k + 1) * C)⟩,
      if decide (bytes.length ≤ (k + 1) * C) && true then
        some (generateTestcasePathAndFilename row.id testcaseTempDir) else none) := by
  have hd : s.disk (generateTestcasePathAndFilename row.id testcaseTempDir)
      (generateTestcasePathAndFilename row.id testcaseTempDir) = some (.healthy bytes) := by
    rw [HandOut.disk, if_pos rfl, hfile]
    rfl
  have hle : (chunk C bytes k).length ≤ bytes.length := by
    rw [chunk_length]
    omega
  have hchunk : (chunk C bytes k).length < 2 ^ 32 := by
    rw [chunk_length]
    omega
  have hload := loadTestcaseChunk_ok leftover.heap hd hk hchunk
  simp only [FileView.healthy, List.take_of_length_le hle, buffer_full leftover.heap le_rfl]
    at hload
  rw [handleGetTestcaseChunkRequest, hload]
  rfl

/-- The answer to a chunk request, from a file or without one. -/
theorem request_cases {s : HandOut} {leftover : Leftover} {k : ℕ} (hsmall : C < 2 ^ 32)
    {response : GetTestCaseChunkResponse} {toDelete : Option String}
    (h : handleGetTestcaseChunkRequest C ⟨testcaseTempDir, true⟩
      (s.disk (generateTestcasePathAndFilename row.id testcaseTempDir)) leftover row.id k =
        .ok (response, toDelete)) :
    (response.testcasechunk = [] ∧ response.islastchunk = leftover.isLastChunk ∧
      ∀ bytes, s.file = some bytes → bytes.length < k * C) ∨
    (∃ bytes, s.file = some bytes ∧ k * C ≤ bytes.length ∧
      response.testcasechunk = chunk C bytes k ∧
      response.islastchunk = decide (bytes.length ≤ (k + 1) * C)) := by
  have hd : s.disk (generateTestcasePathAndFilename row.id testcaseTempDir)
      (generateTestcasePathAndFilename row.id testcaseTempDir) = s.file.map .healthy := by
    rw [HandOut.disk, if_pos rfl]
  cases hfile : s.file with
  | none =>
    rw [hfile] at hd
    rw [handleGetTestcaseChunkRequest, loadTestcaseChunk_missing C leftover.heap k hd] at h
    cases h
    exact .inl ⟨rfl, rfl, by simp⟩
  | some bytes =>
    by_cases hk : k * C ≤ bytes.length
    · rw [request_file leftover hsmall hfile hk] at h
      cases h
      exact .inr ⟨bytes, rfl, hk, rfl, rfl⟩
    · have hkz : (k : ℤ) * C > (FileView.healthy bytes).content.length := by
        rw [not_le] at hk
        simp only [FileView.healthy]
        exact_mod_cast hk
      rw [hfile] at hd
      rw [handleGetTestcaseChunkRequest, loadTestcaseChunk_invalid leftover.heap hd hkz] at h
      cases h
      refine .inl ⟨rfl, rfl, ?_⟩
      rintro _ ⟨⟩
      exact not_le.mp hk

/-! ### One request -/

section Request

variable {content received bytes : Bytes} {k : ℕ}

/-- Pieces that make up a prefix of the right length are the right ones. -/
theorem append_chunk_eq_take_iff (hlen : received.length ≤ k * C) (hbegin : k * C ≤ bytes.length)
    (hbound : bytes.length ≤ content.length) :
    received ++ chunk C bytes k = content.take ((k + 1) * C) ↔
      received = content.take (k * C) ∧ chunk C bytes k = chunk C content k := by
  rw [← take_append_chunk]
  constructor
  · intro h
    have hsum := congrArg List.length h
    simp only [List.length_append, chunk_length, List.length_take] at hsum
    refine List.append_inj h ?_
    rw [List.length_take]
    omega
  · rintro ⟨hreceived, hchunk⟩
    rw [hreceived, hchunk]

/-- Without a piece there is no way back to the track. -/
theorem empty_offTrack (hC : 0 < C) (hlen : received.length ≤ k * C)
    (hless : received.length < content.length) (last : Bool) :
    ¬ OnTrack C content
      (if last then .complete received else .downloading received (k + 1)) := by
  cases last with
  | true =>
    intro h
    have h : received = content := h
    rw [h] at hless
    exact lt_irrefl _ hless
  | false =>
    rintro ⟨hk, hreceived⟩
    have hmore := (succ_lt_chunkCount hC content.length k).mp hk
    have hlength := congrArg List.length hreceived
    rw [List.length_take, Nat.succ_mul] at hlength
    rw [Nat.succ_mul] at hmore
    omega

/-- A file that ends before a chunk does not have it. -/
theorem short_lacksChunk (hC : 0 < C) (hk : k < chunkCount C content.length)
    (hshort : bytes.length < k * C) :
    chunk C bytes k ≠ chunk C content k := by
  intro h
  have hlength := congrArg List.length h
  rw [chunk_length, chunk_length] at hlength
  have hbegin := (lt_chunkCount hC content.length k).mp hk
  cases hbegin with
  | inl hzero =>
    rw [hzero, Nat.zero_mul] at hshort
    omega
  | inr hbegin => omega

/-- With a piece from the file, the download stays on track exactly if it was, the piece
is the chunk, and the file ends where the testcase ends. -/
theorem piece_onTrack_iff (hC : 0 < C) (hlen : received.length ≤ k * C)
    (hless : received.length < content.length) (hbegin : k * C ≤ bytes.length)
    (hbound : bytes.length ≤ content.length) :
    OnTrack C content (if decide (bytes.length ≤ (k + 1) * C) then
        .complete (received ++ chunk C bytes k)
      else .downloading (received ++ chunk C bytes k) (k + 1)) ↔
    OnTrack C content (.downloading received k) ∧ HasChunk C content k (some bytes) := by
  have hiff := append_chunk_eq_take_iff hlen hbegin hbound
  have hlength : (chunk C bytes k).length = min C (bytes.length - k * C) := chunk_length bytes k
  by_cases hlast : bytes.length ≤ (k + 1) * C
  · rw [decide_eq_true hlast, if_pos rfl]
    constructor
    · intro h
      have h : received ++ chunk C bytes k = content := h
      have hsum := congrArg List.length h
      rw [List.length_append, hlength] at hsum
      have hend : content.length ≤ (k + 1) * C := by
        rw [Nat.succ_mul]
        omega
      obtain ⟨hreceived, hchunk⟩ := hiff.mp (by rw [h, List.take_of_length_le hend])
      have hk : k < chunkCount C content.length :=
        (lt_chunkCount hC _ _).mpr (.inr (by omega))
      exact ⟨⟨hk, hreceived⟩, bytes, rfl, hchunk, iff_of_true hlast hend⟩
    · rintro ⟨⟨_, hreceived⟩, _, ⟨⟩, hchunk, hends⟩
      have hwhole := hiff.mpr ⟨hreceived, hchunk⟩
      rwa [List.take_of_length_le (hends.mp hlast)] at hwhole
  · rw [decide_eq_false hlast, if_neg (by decide)]
    constructor
    · rintro ⟨hk, hreceived⟩
      obtain ⟨hreceived, hchunk⟩ := hiff.mp hreceived
      have hmore := (succ_lt_chunkCount hC content.length k).mp hk
      exact ⟨⟨by omega, hreceived⟩, bytes, rfl, hchunk, iff_of_false hlast (not_le.mpr hmore)⟩
    · rintro ⟨⟨_, hreceived⟩, _, ⟨⟩, hchunk, hends⟩
      have hmore : (k + 1) * C < content.length := not_le.mp fun hend => hlast (hends.mpr hend)
      exact ⟨(succ_lt_chunkCount hC content.length k).mpr hmore, hiff.mpr ⟨hreceived, hchunk⟩⟩

/-- As long as the last chunk is not flagged, something is missing. -/
theorem piece_sized {piece : Bytes} {last : Bool} (hlen : received.length ≤ k * C)
    (hless : received.length < content.length)
    (hpiece : piece = [] ∨ (piece.length ≤ C ∧ (last = false → (k + 1) * C < content.length))) :
    Sized C content (if last then .complete (received ++ piece)
      else .downloading (received ++ piece) (k + 1)) := by
  cases last with
  | true => trivial
  | false =>
    show (received ++ piece).length ≤ (k + 1) * C ∧ (received ++ piece).length < content.length
    rw [List.length_append, Nat.succ_mul]
    obtain rfl | ⟨hpiece, hmore⟩ := hpiece
    · rw [List.length_nil]
      omega
    · have hmore := hmore rfl
      rw [Nat.succ_mul] at hmore
      omega

end Request

end Fluffi.LocalManager
