import Fluffi.LocalManager.DownloadRuns

/-! Downloads that are kept apart. If the file is opened for writing, or removed, only when nobody
writes or reads it, every download stays on track. -/

namespace Fluffi.LocalManager

open Shared Systems
open GarbageCollector (Hand CollectorStep collectGarbage markFileForDelete)

variable {C : ℕ} {row : InterestingTestcase} {testcaseTempDir : String}
variable {content : Bytes} {tr : List (HandOut × (ℕ × HandOutAction))} {s t : HandOut} {i : ℕ}

/-! ### One sending after the other -/

/-- The file is being rewritten or read. -/
def Sending.busy : Sending → Prop
  | .rewriting _ _ | .downloading _ _ => True
  | _ => False

/-- The file is opened for writing, or removed, only when nobody writes or reads it. -/
def Apart (s : HandOut) (e : ℕ × HandOutAction) : Prop :=
  ((∃ opens, e.2 = .openFile opens) ∨ e.2 = .collect (.remove true)) → ∀ i, ¬ (s.sending i).busy

/-- A file that is read is complete, and one that is written is complete up to the offset. -/
structure ApartInv (content : Bytes) (s : HandOut) : Prop where
  reading : ∀ i received k, s.sending i = .downloading received k → s.file = some content
  writing : ∀ i offset linked, s.sending i = .rewriting offset linked →
    linked = true ∧ offset ≤ content.length ∧ s.file = some (content.take offset) ∧
      ∀ j, j ≠ i → ¬ (s.sending j).busy

theorem ApartInv.moved {sending : Sending} (h : ApartInv content s)
    (hreading : ∀ received k, sending = .downloading received k → s.file = some content)
    (hbusy : sending.busy → (s.sending i).busy) (hwriting : ∀ offset linked,
      sending ≠ .rewriting offset linked) : ApartInv content (s.move i sending) := by
  constructor
  · intro j received k hj
    by_cases hji : j = i
    · subst hji
      rw [HandOut.move_self] at hj
      exact hreading received k hj
    · rw [HandOut.move_of_ne hji] at hj
      exact h.reading j received k hj
  · intro j offset linked hj
    by_cases hji : j = i
    · subst hji
      rw [HandOut.move_self] at hj
      exact absurd hj (hwriting offset linked)
    · rw [HandOut.move_of_ne hji] at hj
      obtain ⟨hlinked, hoffset, hfile, hothers⟩ := h.writing j offset linked hj
      refine ⟨hlinked, hoffset, hfile, ?_⟩
      intro l hl
      by_cases hli : l = i
      · subst hli
        rw [HandOut.move_self]
        exact fun hb => hothers l hl (hbusy hb)
      · rw [HandOut.move_of_ne hli]
        exact hothers l hl

/-- Nobody reads or writes, except perhaps sending `i`, which begins to write. -/
theorem ApartInv.started {file : Option Bytes} {sending : Sending}
    (hnobody : ∀ j, ¬ (s.sending j).busy)
    (hsending : ¬ sending.busy ∨ (sending = .rewriting 0 true ∧ file = some [])) :
    ApartInv content ({ s with file := file }.move i sending) := by
  have hothers : ∀ j, j ≠ i → ¬ (({ s with file := file }.move i sending).sending j).busy := by
    intro j hji
    rw [HandOut.move_of_ne hji]
    exact hnobody j
  constructor
  · intro j received k hj
    by_cases hji : j = i
    · subst hji
      rw [HandOut.move_self] at hj
      subst hj
      obtain hidle | ⟨heq, _⟩ := hsending
      · exact absurd trivial hidle
      · cases heq
    · exact absurd (by rw [hj]; trivial) (hothers j hji)
  · intro j offset linked hj
    by_cases hji : j = i
    · subst hji
      rw [HandOut.move_self] at hj
      subst hj
      obtain hidle | ⟨heq, hfile⟩ := hsending
      · exact absurd trivial hidle
      · cases heq
        exact ⟨rfl, Nat.zero_le _, hfile, hothers⟩
    · exact absurd (by rw [hj]; trivial) (hothers j hji)

/-- The one that writes goes on. -/
theorem ApartInv.written {offset offset' : ℕ} (h : ApartInv content s)
    (hrewriting : s.sending i = .rewriting offset true) (hoffset : offset' ≤ content.length) :
    ApartInv content
      ({ s with file := some (content.take offset') }.move i (.rewriting offset' true)) := by
  obtain ⟨-, -, -, hothers⟩ := h.writing i offset true hrewriting
  constructor
  · intro j received k hj
    by_cases hji : j = i
    · subst hji
      rw [HandOut.move_self] at hj
      cases hj
    · rw [HandOut.move_of_ne hji] at hj
      exact absurd (by rw [hj]; trivial) (hothers j hji)
  · intro j _ _ hj
    by_cases hji : j = i
    · subst hji
      rw [HandOut.move_self] at hj
      cases hj
      refine ⟨rfl, hoffset, rfl, ?_⟩
      intro l hl
      rw [HandOut.move_of_ne hl]
      exact hothers l hl
    · rw [HandOut.move_of_ne hji] at hj
      exact absurd (by rw [hj]; trivial) (hothers j hji)

/-- Without the file nobody writes or reads it. -/
theorem ApartInv.nobody (h : ApartInv content s) (hfile : s.file.isSome = false) :
    ∀ j, ¬ (s.sending j).busy := by
  intro j hbusy
  cases hj : s.sending j with
  | rewriting offset linked =>
    rw [(h.writing j offset linked hj).2.2.1] at hfile
    cases hfile
  | downloading received k =>
    rw [h.reading j received k hj] at hfile
    cases hfile
  | waiting => exact absurd hbusy (by rw [hj]; exact id)
  | complete received => exact absurd hbusy (by rw [hj]; exact id)
  | failed => exact absurd hbusy (by rw [hj]; exact id)

theorem ApartInv.of_nobody (hnobody : ∀ j, ¬ (s.sending j).busy) : ApartInv content s where
  reading j received k hj := absurd (by rw [hj]; trivial) (hnobody j)
  writing j offset linked hj := absurd (by rw [hj]; trivial) (hnobody j)

theorem Sending.busy_unlink (sending : Sending) : sending.unlink.busy ↔ sending.busy := by
  cases sending <;> rfl

theorem ApartInv.next {e : ℕ × HandOutAction} (h : ApartInv row.RawBytes s)
    (hname : handOutFilename row testcaseTempDir =
      generateTestcasePathAndFilename row.id testcaseTempDir)
    (hapart : Apart s e) (hnext : s.next C row testcaseTempDir e = some t) :
    ApartInv row.RawBytes t := by
  obtain ⟨i, action⟩ := e
  cases action with
  | openFile opens =>
    have hnobody := hapart (.inl ⟨opens, rfl⟩)
    simp only [HandOut.next, if_pos hname] at hnext
    split at hnext
    case h_2 => cases hnext
    case h_1 =>
      split_ifs at hnext
      · obtain rfl := Option.some.inj hnext
        exact ApartInv.started hnobody (.inl id)
      · obtain rfl := Option.some.inj hnext
        exact ApartInv.started hnobody (.inl id)
      · obtain rfl := Option.some.inj hnext
        exact ApartInv.started hnobody (.inr ⟨rfl, rfl⟩)
  | fwrite n =>
    simp only [HandOut.next] at hnext
    split at hnext
    case h_2 => cases hnext
    case h_1 offset linked hrewriting =>
      obtain rfl := Option.some.inj hnext
      obtain ⟨rfl, hoffset, hfile, -⟩ := h.writing i offset linked hrewriting
      have hwritten : s.file.map (writeAt · offset ((row.RawBytes.drop offset).take n)) =
          some (row.RawBytes.take (offset + ((row.RawBytes.drop offset).take n).length)) := by
        rw [hfile, Option.map_some, writeAt_take hoffset]
      rw [if_pos rfl, hwritten]
      refine h.written hrewriting ?_
      rw [List.length_take, List.length_drop]
      omega
  | respond =>
    simp only [HandOut.next] at hnext
    split at hnext
    case h_2 => cases hnext
    case h_1 offset linked hrewriting =>
      split_ifs at hnext with hall
      obtain rfl := Option.some.inj hnext
      obtain ⟨_, _, hfile, _⟩ := h.writing i offset linked hrewriting
      refine h.moved ?_ ?_ (by simp)
      · intro _ _ _
        rw [hfile, List.take_of_length_le (not_lt.mp hall)]
      · intro _
        rw [hrewriting]
        trivial
  | requestChunk leftover =>
    simp only [HandOut.next] at hnext
    split at hnext
    case h_2 => cases hnext
    case h_1 received k hdownloading =>
      split at hnext
      case h_1 => cases hnext
      case h_2 response toDelete _ =>
        obtain rfl := Option.some.inj hnext
        have hmarked : ∀ marked, ApartInv row.RawBytes { s with marked := marked } :=
          fun _ => ⟨h.reading, h.writing⟩
        refine (hmarked _).moved ?_ ?_ ?_
        · intro _ _ _
          exact h.reading i received k hdownloading
        · intro _
          show (s.sending i).busy
          rw [hdownloading]
          trivial
        · intro _ _
          split <;> simp
  | collect step =>
    simp only [HandOut.next] at hnext
    obtain ⟨⟨present, marked, hand⟩, hcollect, rfl⟩ := Option.map_eq_some_iff.mp hnext
    cases present with
    | true => exact ⟨h.reading, h.writing⟩
    | false =>
      -- the file was not there before the step, or the step removes it
      have hnobody : ∀ j, ¬ (s.sending j).busy := by
        have hgone : s.file.isSome = false ∨ step = .remove true := by
          obtain ⟨_, _, _, hsame, _⟩ | ⟨_, _, hsame, _⟩ | ⟨_, _, hremove, _⟩ | ⟨_, _, hsame, _⟩ :=
            GarbageCollector.collectGarbage_cases hcollect
          · exact .inl hsame.symm
          · exact .inl hsame.symm
          · exact .inr hremove
          · exact .inl hsame.symm
        obtain hnone | rfl := hgone
        · exact h.nobody hnone
        · exact hapart (.inr rfl)
      exact .of_nobody fun j hbusy => hnobody j ((Sending.busy_unlink _).mp hbusy)

/-- Sendings whose writing, reading and removing do not overlap are all on track. -/
theorem apart_on_track (hC : 0 < C) (hsmall : C < 2 ^ 32)
    (hname : handOutFilename row testcaseTempDir =
      generateTestcasePathAndFilename row.id testcaseTempDir)
    {start : HandOut} (hstart : start.Start)
    (hr : Run (HandOut.next C row testcaseTempDir) start tr s)
    (hapart : ∀ p ∈ tr, Apart p.1 p.2) (i : ℕ) : OnTrack C row.RawBytes (s.sending i) := by
  have hinv : SendingInv C row.RawBytes tr s :=
    hr.history (G := fun _ _ => True) (I := SendingInv C row.RawBytes) (fun _ _ => trivial)
      (start_sendingInv hstart) fun h _ hnext => h.next hC hsmall hnext
  have hbegin : ApartInv row.RawBytes start := by
    constructor
    · intro j received k hj
      rw [hstart.waiting] at hj
      cases hj
    · intro j offset linked hj
      rw [hstart.waiting] at hj
      cases hj
  have hfiles := (hr.invariant_mem (G := Apart) (I := ApartInv row.RawBytes) hapart hbegin
    fun h hg hnext => h.next hname hg hnext).2
  rw [hinv.track i]
  rintro p hp k ⟨received, _, hdownloading, _⟩
  rw [(hfiles p hp).reading i received k hdownloading]
  exact ⟨row.RawBytes, rfl, rfl, Iff.rfl⟩

end Fluffi.LocalManager
