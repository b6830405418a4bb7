import Fluffi.Systems.Chunks
import Fluffi.Shared.Identity

/-! Loading testcase files. An open file has a length, and a read may deliver fewer
bytes than asked for. The buffers are allocated with sizes cast to 32 bits and not
cleared, so what a read leaves of them is whatever the heap held. Chunks are
numbered by `int`s that come from the network. -/

namespace Fluffi.Shared

open Systems

abbrev Bytes := List UInt8

/-- Ways in which a call does not return as written. -/
inductive Abnormal
  /-- A write beyond the end of an allocated buffer. -/
  | heapOverflow
  /-- An `int` incremented beyond its largest value. -/
  | signedOverflow
  | stillWaiting
  /-- An exception that nobody catches. -/
  | uncaught
  deriving DecidableEq, Repr

/-- What an opened stream finds: `tellg` at the end reports the length of `content`,
and no read delivers more than `readLimit` bytes. -/
structure FileView where
  content : Bytes
  readLimit : ℕ
  deriving DecidableEq, Repr

def FileView.healthy (content : Bytes) : FileView := ⟨content, content.length⟩

/-- The files that can be opened. -/
def Disk : Type := String → Option FileView

/-- A buffer of `size` bytes, filled from the front with what a read got. -/
def buffer (heap : ℕ → UInt8) (size : ℕ) (got : Bytes) : Bytes :=
  got ++ (List.range' got.length (size - got.length)).map heap

/-- `new char[static_cast<unsigned int>(size)]`, `ifs.read` of `size` bytes where
`available` is all the stream can deliver, and the string made of the buffer. -/
def readBuffer (heap : ℕ → UInt8) (size : ℕ) (available : Bytes) : Except Abnormal Bytes :=
  let bufferSize := size % 2 ^ 32
  let got := available.take size
  if got.length ≤ bufferSize then .ok (buffer heap bufferSize got) else .error .heapOverflow

def loadTestcaseInMemory (disk : Disk) (heap : ℕ → UInt8) (testcaseId : FluffiTestcaseID)
    (testcaseDir : String) : Except Abnormal Bytes :=
  match disk (generateTestcasePathAndFilename testcaseId testcaseDir) with
  | none => .ok []
  | some ifs => readBuffer heap ifs.content.length (ifs.content.take ifs.readLimit)

/-- The second component is what `*isLastChunk` is assigned, if it is. -/
def loadTestcaseChunkInMemory (chunkSizeInBytes : ℕ) (disk : Disk) (heap : ℕ → UInt8)
    (testcaseId : FluffiTestcaseID) (testcaseDir : String) (chunkNum : ℤ) :
    Except Abnormal (Bytes × Option Bool) :=
  match disk (generateTestcasePathAndFilename testcaseId testcaseDir) with
  | none => .ok ([], none)
  | some ifs =>
    let completeFilelength : ℤ := ifs.content.length
    if chunkNum * chunkSizeInBytes > completeFilelength then .ok ([], none)
    else
      -- seeking to a negative position fails: `tellg` is -1 and nothing can be read
      let sizeOfAlreadyTransferedParts : ℤ :=
        if 0 ≤ chunkNum * chunkSizeInBytes then chunkNum * chunkSizeInBytes else -1
      let rest := if 0 ≤ chunkNum * chunkSizeInBytes then
        ifs.content.drop (chunkNum * chunkSizeInBytes).toNat else []
      if completeFilelength > sizeOfAlreadyTransferedParts + chunkSizeInBytes then
        (readBuffer heap chunkSizeInBytes (rest.take ifs.readLimit)).map (·, some false)
      else
        (readBuffer heap (completeFilelength - sizeOfAlreadyTransferedParts).toNat
          (rest.take ifs.readLimit)).map (·, some true)

/-- `CommInt::chunkSizeInBytes` -/
def chunkSizeInBytes : ℕ := 100 * 1000 * 1000

theorem map_eq_ok {α β : Type} {f : α → β} {x : Except Abnormal α} {b : β}
    (h : x.map f = .ok b) : ∃ a, x = .ok a ∧ f a = b := by
  cases x with
  | error abnormal => cases h
  | ok a => exact ⟨a, rfl, Except.ok.inj h⟩

theorem bind_eq_ok {α β : Type} {f : α → Except Abnormal β} {x : Except Abnormal α} {b : β}
    (h : x.bind f = .ok b) : ∃ a, x = .ok a ∧ f a = .ok b := by
  cases x with
  | error abnormal => cases h
  | ok a => exact ⟨a, rfl, h⟩

/-! ### Buffers -/

/-- A buffer that the cast leaves whole takes what the read delivers. -/
theorem readBuffer_eq (heap : ℕ → UInt8) {size : ℕ} (hs : size < 2 ^ 32) (available : Bytes) :
    readBuffer heap size available = .ok (buffer heap size (available.take size)) := by
  have hle : (available.take size).length ≤ size := List.length_take_le size available
  rw [readBuffer, Nat.mod_eq_of_lt hs, if_pos hle]

theorem buffer_length (heap : ℕ → UInt8) {size : ℕ} {got : Bytes} (hg : got.length ≤ size) :
    (buffer heap size got).length = size := by
  simp only [buffer, List.length_append, List.length_map, List.length_range']
  omega

theorem buffer_full (heap : ℕ → UInt8) {size : ℕ} {got : Bytes} (hg : size ≤ got.length) :
    buffer heap size got = got := by
  rw [buffer, Nat.sub_eq_zero_of_le hg]
  simp

/-- The string has the size the cast left for the buffer. -/
theorem readBuffer_length {heap : ℕ → UInt8} {size : ℕ} {available data : Bytes}
    (h : readBuffer heap size available = .ok data) : data.length = size % 2 ^ 32 := by
  simp only [readBuffer] at h
  split at h
  next hle =>
    rw [← Except.ok.inj h]
    exact buffer_length heap hle
  next => cases h

theorem succ_byte_ne (x : UInt8) : x + 1 ≠ x := by
  intro h
  have hnat := congrArg UInt8.toNat h
  rw [UInt8.toNat_add] at hnat
  have hlt := x.toNat_lt
  simp only [UInt8.reduceToNat, Nat.reducePow] at hnat hlt
  omega

/-- A read that stops early can leave a byte that differs from the one of the file. -/
theorem le_of_buffer_eq {bytes : Bytes} {limit : ℕ}
    (h : buffer (fun i => bytes.getD i 0 + 1) bytes.length (bytes.take limit) = bytes) :
    bytes.length ≤ limit := by
  by_contra hshort
  have hlt : limit < bytes.length := not_le.mp hshort
  have hlen : (bytes.take limit).length = limit := List.length_take_of_le hlt.le
  have hbyte := congrArg (·[limit]?) h
  rw [buffer, hlen] at hbyte
  simp only [List.getElem?_append_right hlen.le, hlen, Nat.sub_self, List.getElem?_map,
    List.getElem?_range' (Nat.sub_pos_of_lt hlt), Nat.mul_zero, Nat.add_zero, Option.map_some,
    List.getD_eq_getElem?_getD, List.getElem?_eq_getElem hlt, Option.getD_some,
    Option.some.injEq] at hbyte
  exact succ_byte_ne _ hbyte

theorem readBuffer_overflow (heap : ℕ → UInt8) {size : ℕ} (hs : 2 ^ 32 ≤ size) {available : Bytes}
    (ha : size ≤ available.length) : readBuffer heap size available = .error .heapOverflow := by
  have hlt : ¬ (available.take size).length ≤ size % 2 ^ 32 := by
    rw [List.length_take_of_le ha, not_le]
    exact (Nat.mod_lt size (Nat.two_pow_pos 32)).trans_le hs
  rw [readBuffer, if_neg hlt]

variable {disk : Disk} {testcaseId : FluffiTestcaseID} {testcaseDir : String} {ifs : FileView}

/-- A file is loaded as it is exactly when its length fits 32 bits. -/
theorem loadTestcaseInMemory_healthy {content : Bytes} (heap : ℕ → UInt8)
    (hd : disk (generateTestcasePathAndFilename testcaseId testcaseDir) =
      some (.healthy content)) :
    loadTestcaseInMemory disk heap testcaseId testcaseDir = .ok content ↔
      content.length < 2 ^ 32 := by
  rw [loadTestcaseInMemory, hd]
  simp only [FileView.healthy, List.take_length]
  by_cases hlen : content.length < 2 ^ 32
  · rw [readBuffer_eq heap hlen, List.take_length, buffer_full heap le_rfl]
    exact iff_of_true rfl hlen
  · rw [readBuffer_overflow heap (not_lt.mp hlen) le_rfl]
    exact iff_of_false (by simp) hlen

theorem loadTestcaseInMemory_small {content rawBytes : Bytes} {heap : ℕ → UInt8}
    (hd : disk (generateTestcasePathAndFilename testcaseId testcaseDir) = some (.healthy content))
    (hload : loadTestcaseInMemory disk heap testcaseId testcaseDir = .ok rawBytes) :
    content.length < 2 ^ 32 := by
  by_contra hlen
  rw [loadTestcaseInMemory, hd] at hload
  simp only [FileView.healthy, List.take_length] at hload
  rw [readBuffer_overflow heap (not_lt.mp hlen) le_rfl] at hload
  cases hload

/-! ### Chunks -/

theorem loadTestcaseChunk_missing (C : ℕ) (heap : ℕ → UInt8) (k : ℤ)
    (hd : disk (generateTestcasePathAndFilename testcaseId testcaseDir) = none) :
    loadTestcaseChunkInMemory C disk heap testcaseId testcaseDir k = .ok ([], none) := by
  rw [loadTestcaseChunkInMemory, hd]

theorem loadTestcaseChunk_invalid {C : ℕ} (heap : ℕ → UInt8) {k : ℤ}
    (hd : disk (generateTestcasePathAndFilename testcaseId testcaseDir) = some ifs)
    (hk : k * C > ifs.content.length) :
    loadTestcaseChunkInMemory C disk heap testcaseId testcaseDir k = .ok ([], none) := by
  rw [loadTestcaseChunkInMemory, hd]
  simp only [if_pos hk]

/-- A chunk that begins inside the file is read in the size it has there, and the
flag says whether the file goes on behind it. -/
theorem loadTestcaseChunk_valid {C : ℕ} (heap : ℕ → UInt8) {k : ℕ}
    (hd : disk (generateTestcasePathAndFilename testcaseId testcaseDir) = some ifs)
    (hk : k * C ≤ ifs.content.length) :
    loadTestcaseChunkInMemory C disk heap testcaseId testcaseDir k =
      (readBuffer heap (chunk C ifs.content k).length
        ((ifs.content.drop (k * C)).take ifs.readLimit)).map
        (·, some (decide (ifs.content.length ≤ (k + 1) * C))) := by
  have hpos : (0 : ℤ) ≤ (k : ℤ) * C := by
    rw [← Nat.cast_mul]
    exact Int.natCast_nonneg _
  have hkz : ¬ (k : ℤ) * C > ifs.content.length := by
    rw [not_lt]
    exact_mod_cast hk
  have hnat : ((k : ℤ) * C).toNat = k * C := by
    rw [← Nat.cast_mul, Int.toNat_natCast]
  rw [loadTestcaseChunkInMemory, hd]
  simp only [if_neg hkz, if_pos hpos, hnat, chunk_length]
  by_cases hlast : ifs.content.length ≤ (k + 1) * C
  · have hz : ¬ (ifs.content.length : ℤ) > (k : ℤ) * C + C := by
      rw [Nat.succ_mul] at hlast
      rw [not_lt]
      exact_mod_cast hlast
    have hsize : ((ifs.content.length : ℤ) - (k : ℤ) * C).toNat =
        min C (ifs.content.length - k * C) := by
      rw [Nat.succ_mul] at hlast
      rw [← Nat.cast_mul]
      omega
    rw [if_neg hz, hsize]
    simp [hlast]
  · have hz : (ifs.content.length : ℤ) > (k : ℤ) * C + C := by
      rw [Nat.succ_mul, not_le] at hlast
      exact_mod_cast hlast
    have hsize : min C (ifs.content.length - k * C) = C := by
      rw [Nat.succ_mul] at hlast
      omega
    rw [if_pos hz, hsize]
    simp [hlast]

theorem loadTestcaseChunk_ok {C : ℕ} (heap : ℕ → UInt8) {k : ℕ}
    (hd : disk (generateTestcasePathAndFilename testcaseId testcaseDir) = some ifs)
    (hk : k * C ≤ ifs.content.length) (hs : (chunk C ifs.content k).length < 2 ^ 32) :
    loadTestcaseChunkInMemory C disk heap testcaseId testcaseDir k =
      .ok (buffer heap (chunk C ifs.content k).length ((chunk C ifs.content k).take ifs.readLimit),
        some (decide (ifs.content.length ≤ (k + 1) * C))) := by
  have htake : ((ifs.content.drop (k * C)).take ifs.readLimit).take (chunk C ifs.content k).length =
      (chunk C ifs.content k).take ifs.readLimit := by
    rw [List.take_take, chunk_length, chunk, List.take_take]
    refine List.take_eq_take_iff.mpr ?_
    rw [List.length_drop]
    omega
  rw [loadTestcaseChunk_valid heap hd hk, readBuffer_eq heap hs, htake]
  rfl

/-- A load returns, and it assigns the flag exactly when the file opens and the
chunk begins inside it. -/
theorem load_assigned {C : ℕ} (hsmall : C < 2 ^ 32) (disk : Disk) (heap : ℕ → UInt8)
    (testcaseId : FluffiTestcaseID) (testcaseDir : String) (k : ℤ) :
    ∃ data assigned,
      loadTestcaseChunkInMemory C disk heap testcaseId testcaseDir k = .ok (data, assigned) ∧
      (assigned.isSome ↔ ∃ ifs,
        disk (generateTestcasePathAndFilename testcaseId testcaseDir) = some ifs ∧
          k * C ≤ ifs.content.length) := by
  unfold loadTestcaseChunkInMemory
  cases hd : disk (generateTestcasePathAndFilename testcaseId testcaseDir) with
  | none => exact ⟨[], none, rfl, by simp⟩
  | some ifs =>
    by_cases hk : k * C > ifs.content.length
    · refine ⟨[], none, if_pos hk, ?_⟩
      simpa using hk
    · simp only [if_neg hk]
      generalize (if 0 ≤ k * (C : ℤ) then k * (C : ℤ) else -1) = already
      by_cases hmore : (ifs.content.length : ℤ) > already + C
      · rw [if_pos hmore, readBuffer_eq heap hsmall]
        exact ⟨_, some false, rfl, by simpa using hk⟩
      · rw [if_neg hmore, readBuffer_eq heap (by omega)]
        exact ⟨_, some true, rfl, by simpa using hk⟩

theorem chunkSizeInBytes_lt : chunkSizeInBytes < 2 ^ 32 := by decide

/-- A request is served when the file reaches beyond the chunk, or is complete if
the chunk is the last one. -/
def Serves (C n k : ℕ) (view : Option FileView) : Prop :=
  ∃ ifs, view = some ifs ∧
    if k + 1 < chunkCount C n then (k + 1) * C < ifs.content.length else ifs.content.length = n

/-- How many bytes a read can deliver. -/
def deliverable (view : Option FileView) : ℕ := view.elim 0 FileView.readLimit

/-- The read delivers the whole chunk. -/
def Readable (C : ℕ) (content : Bytes) (k : ℕ) (view : Option FileView) : Prop :=
  (chunk C content k).length ≤ deliverable view

/-- A chunk of the content as far as it can be read, with what the heap held behind it. -/
def receivedChunk (C : ℕ) (content : Bytes) (k : ℕ) (view : Option FileView)
    (heap : ℕ → UInt8) : Bytes :=
  buffer heap (chunk C content k).length ((chunk C content k).take (deliverable view))

theorem receivedChunk_length (C : ℕ) (content : Bytes) (k : ℕ) (view : Option FileView)
    (heap : ℕ → UInt8) : (receivedChunk C content k view heap).length =
      (chunk C content k).length := by
  apply buffer_length
  rw [List.length_take]
  exact min_le_right _ _

theorem Readable.receivedChunk {C k : ℕ} {content : Bytes} {view : Option FileView}
    (h : Readable C content k view) (heap : ℕ → UInt8) :
    receivedChunk C content k view heap = chunk C content k := by
  rw [Fluffi.Shared.receivedChunk, List.take_of_length_le h, buffer_full heap le_rfl]

/-- A served request gets its chunk, as far as it can be read, and the right flag. -/
theorem Serves.load {C k : ℕ} {content : Bytes} {view : Option FileView} (hC : 0 < C)
    (hd : disk (generateTestcasePathAndFilename testcaseId testcaseDir) = view)
    (h : Serves C content.length k view) (hpart : ∀ ifs, view = some ifs → ifs.content <+: content)
    (hk : k < chunkCount C content.length) (hs : (chunk C content k).length < 2 ^ 32)
    (heap : ℕ → UInt8) :
    loadTestcaseChunkInMemory C disk heap testcaseId testcaseDir k =
      .ok (receivedChunk C content k view heap,
        some (decide (k + 1 = chunkCount C content.length))) := by
  obtain ⟨ifs, rfl, hlen⟩ := h
  by_cases hmore : k + 1 < chunkCount C content.length
  · rw [if_pos hmore] at hlen
    have hchunk : chunk C ifs.content k = chunk C content k := chunk_prefix (hpart ifs rfl) hlen.le
    have hbegin : k * C ≤ ifs.content.length := by
      rw [Nat.succ_mul] at hlen
      omega
    have hflag : decide (ifs.content.length ≤ (k + 1) * C) =
        decide (k + 1 = chunkCount C content.length) := by
      rw [decide_eq_false (by omega), decide_eq_false (by omega)]
    rw [loadTestcaseChunk_ok heap hd hbegin (hchunk ▸ hs), hchunk, hflag]
    rfl
  · rw [if_neg hmore] at hlen
    have hcontent : ifs.content = content := (hpart ifs rfl).eq_of_length hlen
    have hlast : k + 1 = chunkCount C content.length := by omega
    have hbegin : k * C ≤ ifs.content.length := by
      rcases (lt_chunkCount hC _ _).mp hk with rfl | hlt
      · omega
      · omega
    have hflag : decide (ifs.content.length ≤ (k + 1) * C) =
        decide (k + 1 = chunkCount C content.length) := by
      rw [decide_eq_true hlast, hlen, hlast, decide_eq_true (le_chunkCount_mul hC _)]
    rw [loadTestcaseChunk_ok heap hd hbegin (hcontent ▸ hs), hflag, hcontent]
    rfl

/-- A chunk of a file that is read in full. -/
theorem load_of_healthy {C : ℕ} (hC : 0 < C) {content : Bytes}
    (hd : disk (generateTestcasePathAndFilename testcaseId testcaseDir) = some (.healthy content))
    {k : ℕ} (hk : k < chunkCount C content.length) (hs : (chunk C content k).length < 2 ^ 32)
    (heap : ℕ → UInt8) :
    loadTestcaseChunkInMemory C disk heap testcaseId testcaseDir k =
      .ok (chunk C content k, some (decide (k + 1 = chunkCount C content.length))) := by
  have hserves : Serves C content.length k (some (.healthy content)) := by
    refine ⟨.healthy content, rfl, ?_⟩
    split
    · exact (succ_lt_chunkCount hC _ _).mp ‹_›
    · rfl
  have hself : ∀ ifs, some (FileView.healthy content) = some ifs → ifs.content <+: content := by
    rintro ifs ⟨⟩
    exact List.prefix_rfl
  have hread : Readable C content k (some (.healthy content)) := by
    show (chunk C content k).length ≤ content.length
    rw [chunk_length]
    omega
  rw [hserves.load hC hd hself hk hs heap, hread.receivedChunk]

theorem healthy_load {C : ℕ} (hC : 0 < C) (hsmall : C < 2 ^ 32) {content : Bytes}
    (hd : disk (generateTestcasePathAndFilename testcaseId testcaseDir) = some (.healthy content))
    {k : ℕ} (hk : k < chunkCount C content.length) (heap : ℕ → UInt8) :
    loadTestcaseChunkInMemory C disk heap testcaseId testcaseDir k =
      .ok (chunk C content k, some (decide (k + 1 = chunkCount C content.length))) := by
  have hlen : (chunk C content k).length < 2 ^ 32 := by
    rw [chunk_length]
    omega
  exact load_of_healthy hC hd hk hlen heap

end Fluffi.Shared
