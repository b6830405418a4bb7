import Fluffi.LocalManager.Downloads

/-! Runs of several downloads of one testcase, which write, read and remove one file. -/

namespace Fluffi.LocalManager

open Shared Systems
open GarbageCollector (Hand CollectorStep collectGarbage markFileForDelete)

variable {C : ℕ} {row : InterestingTestcase} {testcaseTempDir : String}

/-! ### Runs -/

/-- The sendings of a run: a download is on track exactly if each of its requests in the
past found its chunk. -/
structure SendingInv (C : ℕ) (content : Bytes) (tr : List (HandOut × (ℕ × HandOutAction)))
    (s : HandOut) : Prop where
  bound : ∀ bytes, s.file = some bytes → bytes.length ≤ content.length
  sized : ∀ i, Sized C content (s.sending i)
  track : ∀ i, OnTrack C content (s.sending i) ↔
    ∀ p ∈ tr, ∀ k, Requests i p.1 p.2 k → HasChunk C content k p.1.file

variable {content : Bytes} {tr : List (HandOut × (ℕ × HandOutAction))} {s t : HandOut} {i : ℕ}

theorem start_sendingInv (h : s.Start) : SendingInv C content [] s := by
  refine ⟨?_, ?_, ?_⟩
  · intro bytes hbytes
    rw [h.file] at hbytes
    cases hbytes
  · intro i
    rw [h.waiting]
    trivial
  · intro i
    rw [h.waiting]
    exact iff_of_true trivial (by simp)

theorem HandOut.move_self (sending : Sending) : (s.move i sending).sending i = sending := by
  simp [HandOut.move]

theorem HandOut.move_of_ne {j : ℕ} (hj : j ≠ i) (sending : Sending) :
    (s.move i sending).sending j = s.sending j := by
  simp [HandOut.move, hj]

/-- What one step has to keep. -/
theorem SendingInv.snoc {e : ℕ × HandOutAction} (h : SendingInv C content tr s)
    (hbound : ∀ bytes, t.file = some bytes → bytes.length ≤ content.length)
    (hsized : ∀ j, Sized C content (t.sending j))
    (htrack : ∀ j, OnTrack C content (t.sending j) ↔ OnTrack C content (s.sending j) ∧
      ∀ k, Requests j s e k → HasChunk C content k s.file) :
    SendingInv C content (tr ++ [(s, e)]) t := by
  refine ⟨hbound, hsized, ?_⟩
  intro j
  rw [htrack j, h.track j, List.forall_mem_append, List.forall_mem_singleton]

/-- A step of sending `i` that is no request. -/
theorem SendingInv.moved {e : ℕ × HandOutAction} {sending : Sending} {file : Option Bytes}
    (h : SendingInv C content tr s)
    (hbound : ∀ bytes, file = some bytes → bytes.length ≤ content.length)
    (hsized : Sized C content sending)
    (htrack : OnTrack C content sending ↔ OnTrack C content (s.sending i))
    (hrequest : ∀ leftover, e ≠ (i, .requestChunk leftover)) (hi : e.1 = i) :
    SendingInv C content (tr ++ [(s, e)]) ({ s with file := file }.move i sending) := by
  refine h.snoc hbound ?_ ?_
  · intro j
    by_cases hj : j = i
    · subst hj
      rwa [HandOut.move_self]
    · rw [HandOut.move_of_ne hj]
      exact h.sized j
  · intro j
    have hnone : ∀ k, ¬ Requests j s e k := by
      rintro k ⟨received, leftover, _, rfl⟩
      cases hi
      exact hrequest leftover rfl
    by_cases hj : j = i
    · subst hj
      rw [HandOut.move_self, htrack]
      exact ⟨fun hon => ⟨hon, fun k hk => absurd hk (hnone k)⟩, And.left⟩
    · rw [HandOut.move_of_ne hj]
      exact ⟨fun hon => ⟨hon, fun k hk => absurd hk (hnone k)⟩, And.left⟩

theorem SendingInv.openFile {opens : Bool} (h : SendingInv C row.RawBytes tr s)
    (hnext : s.next C row testcaseTempDir (i, .openFile opens) = some t) :
    SendingInv C row.RawBytes (tr ++ [(s, (i, .openFile opens))]) t := by
  simp only [HandOut.next] at hnext
  split at hnext
  case h_2 => cases hnext
  case h_1 hwaiting =>
    have hon : OnTrack C row.RawBytes (s.sending i) := by
      rw [hwaiting]
      trivial
    split_ifs at hnext with hone hopens hname
    · obtain rfl := Option.some.inj hnext
      have hall : row.RawBytes.length ≤ C := by
        simp only [generateGetTestcaseToMutateResponse] at hone
        split_ifs at hone
        · cases hone
        · simpa using hone
      refine h.moved h.bound trivial (iff_of_true ?_ hon) (by simp) rfl
      simp only [generateGetTestcaseToMutateResponse, decide_eq_true hall]
      exact List.take_of_length_le hall
    · obtain rfl := Option.some.inj hnext
      exact h.moved h.bound trivial (iff_of_true trivial hon) (by simp) rfl
    all_goals
      have hmore : C < row.RawBytes.length := by
        by_contra hall
        rw [Bool.not_eq_true, Bool.not_eq_false'] at hopens
        simp [generateGetTestcaseToMutateResponse, hopens, not_lt.mp hall] at hone
    · obtain rfl := Option.some.inj hnext
      refine h.moved ?_ ⟨Nat.zero_le _, hmore⟩ (iff_of_true trivial hon) (by simp) rfl
      rintro _ ⟨⟩
      exact Nat.zero_le _
    · obtain rfl := Option.some.inj hnext
      exact h.moved h.bound ⟨Nat.zero_le _, hmore⟩ (iff_of_true trivial hon) (by simp) rfl

theorem SendingInv.fwrite {n : ℕ} (h : SendingInv C row.RawBytes tr s)
    (hnext : s.next C row testcaseTempDir (i, .fwrite n) = some t) :
    SendingInv C row.RawBytes (tr ++ [(s, (i, .fwrite n))]) t := by
  simp only [HandOut.next] at hnext
  split at hnext
  case h_2 => cases hnext
  case h_1 offset linked hrewriting =>
    obtain rfl := Option.some.inj hnext
    have hsized := h.sized i
    rw [hrewriting] at hsized
    have hpiece : offset + ((row.RawBytes.drop offset).take n).length ≤ row.RawBytes.length := by
      rw [List.length_take, List.length_drop]
      have hoffset := hsized.1
      omega
    refine h.moved ?_ ⟨hpiece, hsized.2⟩ ?_ (by simp) rfl
    · intro bytes hbytes
      split at hbytes
      · obtain ⟨old, hold, rfl⟩ := Option.map_eq_some_iff.mp hbytes
        rw [length_writeAt]
        exact max_le (h.bound old hold) hpiece
      · exact h.bound bytes hbytes
    · rw [hrewriting]
      exact Iff.rfl

/-- The generator gets the first chunk, and the file has been written to its end. -/
theorem SendingInv.respond (hC : 0 < C) (h : SendingInv C row.RawBytes tr s)
    (hnext : s.next C row testcaseTempDir (i, .respond) = some t) :
    SendingInv C row.RawBytes (tr ++ [(s, (i, .respond))]) t := by
  simp only [HandOut.next] at hnext
  split at hnext
  case h_2 => cases hnext
  case h_1 offset linked hrewriting =>
    split_ifs at hnext
    obtain rfl := Option.some.inj hnext
    have hsized := h.sized i
    rw [hrewriting] at hsized
    have hmore : C < row.RawBytes.length := hsized.2
    have hfirst : (generateGetTestcaseToMutateResponse C (some row) true none).testcasefirstchunk =
        row.RawBytes.take C := by
      simp [generateGetTestcaseToMutateResponse]
    rw [hfirst]
    refine h.moved h.bound ⟨?_, ?_⟩ ?_ (by simp) rfl
    · rw [List.length_take]
      omega
    · rw [List.length_take]
      omega
    · rw [hrewriting]
      refine iff_of_true ⟨?_, ?_⟩ trivial
      · exact (lt_chunkCount hC _ _).mpr (.inr (by omega))
      · rw [Nat.one_mul]

/-- The request is where a download can leave the track. -/
theorem SendingInv.requestChunk {leftover : Leftover} (hC : 0 < C) (hsmall : C < 2 ^ 32)
    (h : SendingInv C row.RawBytes tr s)
    (hnext : s.next C row testcaseTempDir (i, .requestChunk leftover) = some t) :
    SendingInv C row.RawBytes (tr ++ [(s, (i, .requestChunk leftover))]) t := by
  simp only [HandOut.next] at hnext
  split at hnext
  case h_2 => cases hnext
  case h_1 received k hdownloading =>
    split at hnext
    case h_1 => cases hnext
    case h_2 response toDelete hanswer =>
      obtain rfl := Option.some.inj hnext
      have hsized := h.sized i
      rw [hdownloading] at hsized
      obtain ⟨hlen, hless⟩ := hsized
      have hothers : ∀ j, j ≠ i → ∀ k', ¬ Requests j s (i, .requestChunk leftover) k' := by
        rintro j hj k' ⟨_, _, _, heq⟩
        exact hj (Prod.mk.inj heq).1.symm
      have hself : (∀ k', Requests i s (i, .requestChunk leftover) k' →
          HasChunk C row.RawBytes k' s.file) ↔ HasChunk C row.RawBytes k s.file := by
        constructor
        · intro hall
          exact hall k ⟨received, leftover, hdownloading, rfl⟩
        · rintro hhas k' ⟨_, _, hk', _⟩
          rw [hdownloading] at hk'
          cases hk'
          exact hhas
      have hsending : OnTrack C row.RawBytes (if response.islastchunk then
            .complete (received ++ response.testcasechunk)
          else .downloading (received ++ response.testcasechunk) (k + 1)) ↔
          OnTrack C row.RawBytes (.downloading received k) ∧
            HasChunk C row.RawBytes k s.file := by
        obtain ⟨hempty, _, hshort⟩ | ⟨bytes, hfile, hbegin, hpiece, hlast⟩ :=
          request_cases hsmall hanswer
        · rw [hempty, List.append_nil]
          refine iff_of_false (empty_offTrack hC hlen hless response.islastchunk) ?_
          rintro ⟨⟨hk, _⟩, bytes, hfile, hchunk, _⟩
          exact short_lacksChunk hC hk (hshort bytes hfile) hchunk
        · rw [hpiece, hlast, hfile]
          exact piece_onTrack_iff hC hlen hless hbegin (h.bound bytes hfile)
      refine h.snoc h.bound ?_ ?_
      · intro j
        by_cases hj : j = i
        · subst hj
          rw [HandOut.move_self]
          refine piece_sized hlen hless ?_
          obtain ⟨hempty, _, _⟩ | ⟨bytes, hfile, _, hpiece, hlast⟩ := request_cases hsmall hanswer
          · exact .inl hempty
          · right
            rw [hpiece, hlast, chunk_length]
            refine ⟨min_le_left _ _, fun hflag => ?_⟩
            exact (not_le.mp (of_decide_eq_false hflag)).trans_le (h.bound bytes hfile)
        · rw [HandOut.move_of_ne hj]
          exact h.sized j
      · intro j
        by_cases hj : j = i
        · subst hj
          rw [HandOut.move_self, hself, hdownloading]
          exact hsending
        · rw [HandOut.move_of_ne hj]
          exact ⟨fun hon => ⟨hon, fun k' hk' => absurd hk' (hothers j hj k')⟩, And.left⟩

/-- A collector changes the name of the file, and no download. -/
theorem SendingInv.collect {step : CollectorStep} (h : SendingInv C row.RawBytes tr s)
    (hnext : s.next C row testcaseTempDir (i, .collect step) = some t) :
    SendingInv C row.RawBytes (tr ++ [(s, (i, .collect step))]) t := by
  simp only [HandOut.next] at hnext
  obtain ⟨⟨present, marked, hand⟩, _, rfl⟩ := Option.map_eq_some_iff.mp hnext
  have hsized : ∀ sending, Sized C row.RawBytes sending → Sized C row.RawBytes sending.unlink := by
    intro sending hsending
    cases sending <;> exact hsending
  have htrack : ∀ sending, OnTrack C row.RawBytes sending.unlink ↔
      OnTrack C row.RawBytes sending := by
    intro sending
    cases sending <;> exact Iff.rfl
  refine h.snoc ?_ ?_ ?_
  · intro bytes hbytes
    simp only at hbytes
    split at hbytes
    · exact h.bound bytes hbytes
    · cases hbytes
  · intro j
    simp only
    split
    · exact h.sized j
    · exact hsized _ (h.sized j)
  · intro j
    have hnone : ∀ k, ¬ Requests j s (i, .collect step) k := by
      rintro k ⟨_, _, _, heq⟩
      cases heq
    simp only
    split
    · exact ⟨fun hon => ⟨hon, fun k hk => absurd hk (hnone k)⟩, And.left⟩
    · rw [htrack]
      exact ⟨fun hon => ⟨hon, fun k hk => absurd hk (hnone k)⟩, And.left⟩

theorem SendingInv.next {e : ℕ × HandOutAction} (hC : 0 < C) (hsmall : C < 2 ^ 32)
    (h : SendingInv C row.RawBytes tr s) (hnext : s.next C row testcaseTempDir e = some t) :
    SendingInv C row.RawBytes (tr ++ [(s, e)]) t := by
  obtain ⟨i, action⟩ := e
  cases action with
  | openFile opens => exact h.openFile hnext
  | fwrite n => exact h.fwrite hnext
  | respond => exact h.respond hC hnext
  | requestChunk leftover => exact h.requestChunk hC hsmall hnext
  | collect step => exact h.collect hnext

/-- In every run, a sending is on track exactly if each of its chunk requests found its chunk in
the file. Once it is complete, it is on track if it has got the testcase. -/
theorem downloads_on_track_iff (hC : 0 < C) (hsmall : C < 2 ^ 32) {start : HandOut}
    (hstart : start.Start) (hr : Run (HandOut.next C row testcaseTempDir) start tr s) (i : ℕ) :
    OnTrack C row.RawBytes (s.sending i) ↔
      ∀ p ∈ tr, ∀ k, Requests i p.1 p.2 k → HasChunk C row.RawBytes k p.1.file := by
  have hinv : SendingInv C row.RawBytes tr s :=
    hr.history (G := fun _ _ => True) (I := SendingInv C row.RawBytes) (fun _ _ => trivial)
      (start_sendingInv hstart) fun h _ hnext => h.next hC hsmall hnext
  exact hinv.track i

/-! ### Two runs -/

def freshHandOut : HandOut := ⟨none, none, fun _ => .free, fun _ => .waiting⟩

theorem start_freshHandOut : freshHandOut.Start := ⟨rfl, rfl, fun _ => rfl⟩

def threeBytes : InterestingTestcase :=
  ⟨1, ⟨"generator", 7⟩, ⟨"generator", 0⟩, 100, [1, 2, 3], .Population⟩

/-- A generator that is alone gets its chunks. -/
theorem lone_download_on_track : ∃ tr s, Run (HandOut.next 2 threeBytes "temp") freshHandOut tr s ∧
    s.sending 0 = .complete [1, 2, 3] ∧
      ∀ p ∈ tr, ∀ k, Requests 0 p.1 p.2 k → HasChunk 2 [1, 2, 3] k p.1.file := by
  have hexec : (exec (HandOut.next 2 threeBytes "temp") freshHandOut
      [(0, .openFile true), (0, .fwrite 3), (0, .respond),
        (0, .requestChunk ⟨false, fun _ => 0⟩)]).any
        (fun r => r.2.sending 0 = .complete [1, 2, 3]) = true := by
    decide +kernel
  obtain ⟨⟨tr, s⟩, hexec, hs⟩ := (Option.any_eq_true _ _).mp hexec
  have hcomplete : s.sending 0 = .complete [1, 2, 3] := of_decide_eq_true hs
  have hr := run_of_exec hexec
  refine ⟨tr, s, hr, hcomplete, ?_⟩
  have hiff := downloads_on_track_iff (by decide) (by decide) start_freshHandOut hr 0
  rw [hcomplete] at hiff
  exact hiff.mp rfl

theorem next_openFile (hlong : C < row.RawBytes.length)
    (hname : handOutFilename row testcaseTempDir =
      generateTestcasePathAndFilename row.id testcaseTempDir) (hwaiting : s.sending i = .waiting) :
    s.next C row testcaseTempDir (i, .openFile true) =
      some ({ s with file := some [] }.move i (.rewriting 0 true)) := by
  simp [HandOut.next, hwaiting, generateGetTestcaseToMutateResponse, hlong, hname]

theorem next_fwrite (hrewriting : s.sending i = .rewriting 0 true) (hfile : s.file = some [])
    {n : ℕ} (hn : n ≤ row.RawBytes.length) :
    s.next C row testcaseTempDir (i, .fwrite n) =
      some ({ s with file := some (row.RawBytes.take n) }.move i (.rewriting n true)) := by
  have hwritten : writeAt [] 0 (row.RawBytes.take n) = row.RawBytes.take n := by
    simpa [List.length_take_of_le hn] using writeAt_take (Nat.zero_le row.RawBytes.length) n
  simp [HandOut.next, hrewriting, hfile, hwritten, List.length_take_of_le hn]

theorem next_respond (hrewriting : s.sending i = .rewriting row.RawBytes.length true) :
    s.next C row testcaseTempDir (i, .respond) =
      some (s.move i (.downloading (row.RawBytes.take C) 1)) := by
  simp [HandOut.next, hrewriting, generateGetTestcaseToMutateResponse]

theorem next_requestChunk (hlong : C < row.RawBytes.length) (hsmall : C < 2 ^ 32)
    (leftover : Leftover)
    (hdownloading : s.sending i = .downloading (row.RawBytes.take C) 1)
    (hfile : s.file = some (row.RawBytes.take C)) :
    s.next C row testcaseTempDir (i, .requestChunk leftover) =
      some ({ s with marked := markFileForDelete s.marked 0 }.move i
        (.complete (row.RawBytes.take C))) := by
  have hlength : (row.RawBytes.take C).length = C := List.length_take_of_le hlong.le
  have hchunk : chunk C (row.RawBytes.take C) 1 = [] := by
    rw [chunk, Nat.one_mul, List.drop_eq_nil_of_le hlength.le, List.take_nil]
  have hanswer := @request_file C row testcaseTempDir s leftover 1 _ hsmall hfile
    (by rw [hlength, Nat.one_mul])
  rw [hchunk, hlength, decide_eq_true (by omega)] at hanswer
  simp only [HandOut.next, hdownloading]
  simp only [Nat.cast_one] at hanswer ⊢
  rw [hanswer]
  simp

/-- The second sending truncates the file, and has written one chunk of it when the first
generator asks for its second chunk. -/
theorem overtaken (hlong : C < row.RawBytes.length) (hsmall : C < 2 ^ 32) (leftover : Leftover)
    (hname : handOutFilename row testcaseTempDir =
      generateTestcasePathAndFilename row.id testcaseTempDir) :
    ∃ tr s, Run (HandOut.next C row testcaseTempDir) freshHandOut tr s ∧
      s.sending 0 = .complete (row.RawBytes.take C) := by
  refine ⟨_, _, .cons (next_openFile (i := 0) hlong hname rfl) <|
    .cons (next_fwrite (i := 0) (HandOut.move_self _) rfl le_rfl) <|
    .cons (next_respond (i := 0) (HandOut.move_self _)) <|
    .cons (next_openFile (i := 1) hlong hname ?_) <|
    .cons (next_fwrite (i := 1) (HandOut.move_self _) rfl hlong.le) <|
    .single (next_requestChunk (i := 0) hlong hsmall leftover ?_ rfl), HandOut.move_self _⟩
  · simp [HandOut.move, freshHandOut]
  · simp [HandOut.move]

/-- One byte more than a chunk. -/
def longTestcase : InterestingTestcase :=
  ⟨1, ⟨"generator", 7⟩, ⟨"generator", 0⟩, 100, List.replicate (chunkSizeInBytes + 1) 0, .Population⟩

/-- The first generator gets its last chunk without having got the testcase. -/
theorem overtaken_download_incomplete : ∃ tr s received,
    Run (HandOut.next chunkSizeInBytes longTestcase "temp") freshHandOut tr s ∧
      s.sending 0 = .complete received ∧ received ≠ longTestcase.RawBytes := by
  have hlength : longTestcase.RawBytes.length = chunkSizeInBytes + 1 := List.length_replicate
  have hlong : chunkSizeInBytes < longTestcase.RawBytes.length := by
    rw [hlength]
    exact Nat.lt_succ_self _
  obtain ⟨tr, s, hr, hs⟩ := @overtaken chunkSizeInBytes longTestcase "temp" hlong
    chunkSizeInBytes_lt ⟨false, fun _ => 0⟩ (by decide +kernel)
  refine ⟨tr, s, _, hr, hs, ?_⟩
  intro heq
  have hshort := congrArg List.length heq
  rw [List.length_take_of_le hlong.le] at hshort
  exact absurd hshort hlong.ne

end Fluffi.LocalManager
