import Fluffi.Shared.PendingMarks

/-! Stores and collectors over whole runs. A stored copy outlives the marks made before it, and a
marked copy makes way for the next one, as long as no step is disturbed; two runs of two threads
show what a disturbed one does. -/

namespace Fluffi.Shared.GarbageCollector

open Systems

namespace NameState

variable {s : NameState}

/-! ### Runs -/

theorem not_removesNewer {e : ℕ × Action} (h : s.Inv) : ¬ s.RemovesNewer e := by
  rintro ⟨_, hpresent, mark, waiting, hplace, hlt⟩
  have hpending : s.Pending mark := by
    right
    refine ⟨e.1, ?_⟩
    rw [hplace]
    rfl
  exact absurd (h.newer hpresent mark hpending) (not_le.mpr hlt)

theorem not_marked_of_refuses {e : ℕ × Action} (h : s.Inv) (hg : s.Undisturbed e)
    (hrefuses : s.Refuses e) : s.copy.marked = false := by
  obtain ⟨hpresent, hfree⟩ := hg.asks hrefuses.1
  rw [← Bool.not_eq_true]
  intro hmarked
  obtain ⟨mark, hset | ⟨i, hi⟩⟩ := h.owed hpresent hmarked
  · rw [hrefuses.2] at hset
    cases hset
  · rw [hfree i] at hi
    cases hi

/-- In every run whose steps all meet the condition, stores and collectors keep out of each
other's way. -/
theorem undisturbed_orderly {start : NameState} {tr : List (NameState × (ℕ × Action))}
    (hstart : Start start) (hr : Run next start tr s)
    (hundisturbed : ∀ p ∈ tr, p.1.Undisturbed p.2) : Orderly tr := by
  have hinv : ∀ p ∈ tr, p.1.Inv :=
    (hr.invariant_mem (G := Undisturbed) (I := Inv) hundisturbed (start_inv hstart)
      fun h hg hnext => h.next hg hnext).2
  constructor
  · intro p hp hremoves
    exact absurd hremoves (not_removesNewer (hinv p hp))
  · intro p hp hrefuses
    exact not_marked_of_refuses (hinv p hp) (hundisturbed p hp) hrefuses

/-! ### Runs of two threads -/

/-- An agent that has just started. -/
def fresh : NameState := ⟨0, false, none, ⟨0, false⟩, fun _ => .idle⟩

theorem start_fresh : Start fresh := ⟨fun _ => rfl, rfl, rfl, le_rfl⟩

/-- A file is stored and marked. While a collector has removed it, a second store begins that
found it, and waits. It is marked once more behind that. -/
def storedAgain : List (ℕ × Action) :=
  [(0, .checkExists), (0, .openFile true), (0, .finish true), (0, .markFileForDelete),
    (0, .checkExists), (0, .isFileMarkedForDeletion), (1, .startRound),
    (1, .collect .getRandomFileToDelete), (1, .collect .checkExists), (0, .waitTurn false),
    (1, .collect (.remove true)), (0, .endRound), (1, .endRound), (0, .waitTurn false),
    (0, .checkDeleted), (0, .openFile true), (0, .finish true), (0, .markFileForDelete),
    (1, .startRound), (1, .collect .getRandomFileToDelete), (1, .collect .checkExists),
    (1, .collect (.remove true)), (1, .endRound)]

/-- Only the thread of a step moves. -/
theorem place_of_ne {e : ℕ × Action} (hnext : s.next e = some t) (hj : j ≠ e.1) :
    t.place j = s.place j := by
  obtain ⟨i, action⟩ := e
  cases action with
  | markFileForDelete =>
    simp only [NameState.next] at hnext
    split at hnext
    · cases hnext
      rfl
    · cases hnext
  | collect step =>
    simp only [NameState.next] at hnext
    split at hnext
    · obtain ⟨_, _, rfl⟩ := Option.map_eq_some_iff.mp hnext
      exact move_of_ne hj
    · cases hnext
  | endRound =>
    simp only [NameState.next] at hnext
    split at hnext
    · cases hnext
      exact move_of_ne hj
    · cases hnext
      exact move_of_ne hj
    · cases hnext
  | openFile opens =>
    simp only [NameState.next] at hnext
    split at hnext
    · split at hnext
      · cases hnext
        exact move_of_ne hj
      · cases hnext
        exact move_of_ne hj
    · cases hnext
  | startRound | checkExists | isFileMarkedForDeletion | waitTurn | checkDeleted | finish =>
    simp only [NameState.next] at hnext
    split at hnext
    · cases hnext
      exact move_of_ne hj
    · cases hnext

/-- With two threads at work, nothing is pending when a file is opened, and nothing is in a hand
when a store asks for the mark of a file that is there. -/
def quiet (s : NameState) (e : ℕ × Action) : Bool :=
  match e.2 with
  | .openFile true => s.marked = none && (s.place 0).hand = .free && (s.place 1).hand = .free
  | .isFileMarkedForDeletion =>
    s.present && (s.place 0).hand = .free && (s.place 1).hand = .free
  | _ => true

theorem undisturbed_of_quiet {e : ℕ × Action} (hidle : ∀ j, 2 ≤ j → s.place j = .idle)
    (hquiet : s.quiet e = true) : s.Undisturbed e := by
  have hfree : (s.place 0).hand = .free → (s.place 1).hand = .free →
      ∀ j, (s.place j).hand = .free := by
    intro hzero hone j
    match j with
    | 0 => exact hzero
    | 1 => exact hone
    | j + 2 =>
      rw [hidle (j + 2) (Nat.le_add_left 2 j)]
      rfl
  obtain ⟨i, action⟩ := e
  constructor
  · rintro began rfl - mark hpending
    simp only [quiet, Bool.and_eq_true, decide_eq_true_eq] at hquiet
    obtain ⟨⟨hmarked, hzero⟩, hone⟩ := hquiet
    rcases hpending with hset | ⟨j, hj⟩
    · rw [hmarked] at hset
      cases hset
    · rw [hfree hzero hone j] at hj
      cases hj
  · rintro rfl
    simp only [quiet, Bool.and_eq_true, decide_eq_true_eq] at hquiet
    obtain ⟨⟨hpresent, hzero⟩, hone⟩ := hquiet
    exact ⟨hpresent, hfree hzero hone⟩

/-- The second copy is removed because of its own mark only. -/
theorem stored_again_orderly : ∃ tr s, Run next fresh tr s ∧ tr.map (·.2) = storedAgain ∧
    s.copy = ⟨2, true⟩ ∧ s.present = false ∧ Orderly tr := by
  have hexec : (exec next fresh storedAgain).any (fun r =>
      r.1.map (·.2) = storedAgain && r.2.copy = ⟨2, true⟩ && !r.2.present &&
        r.1.all fun p => p.1.quiet p.2 && p.2.1 < 2) = true := by
    decide +kernel
  obtain ⟨⟨tr, s⟩, hexec, hs⟩ := (Option.any_eq_true _ _).mp hexec
  simp only [Bool.and_eq_true, decide_eq_true_eq, List.all_eq_true, Bool.not_eq_true'] at hs
  obtain ⟨⟨⟨hevents, hcopy⟩, habsent⟩, hquiet⟩ := hs
  have hr := run_of_exec hexec
  have hidle : ∀ p ∈ tr, ∀ j, 2 ≤ j → p.1.place j = .idle :=
    (hr.invariant_mem (G := fun _ e => e.1 < 2) (I := fun s => ∀ j, 2 ≤ j → s.place j = .idle)
      (fun p hp => (hquiet p hp).2) (fun _ _ => rfl)
      fun h hlt hnext j hj => by rw [place_of_ne hnext (by omega), h j hj]).2
  exact ⟨tr, s, hr, hevents, hcopy, habsent, undisturbed_orderly start_fresh hr fun p hp =>
    undisturbed_of_quiet (hidle p hp) (hquiet p hp).1⟩

/-- A file is stored, marked, and marked again while a collector has its name in hand. It
is removed and stored once more, and the collector takes the second mark out of the set. -/
def markedTwice : List (ℕ × Action) :=
  [(0, .checkExists), (0, .openFile true), (0, .finish true), (0, .markFileForDelete),
    (1, .startRound), (1, .collect .getRandomFileToDelete), (0, .markFileForDelete),
    (1, .collect .checkExists), (1, .collect (.remove true)), (1, .endRound),
    (0, .checkExists), (0, .openFile true), (0, .finish true),
    (1, .startRound), (1, .collect .getRandomFileToDelete), (1, .collect .checkExists)]

/-- A file is stored and marked, and a collector takes its name out of the set before
the next store asks for the mark. -/
def nameInHand : List (ℕ × Action) :=
  [(0, .checkExists), (0, .openFile true), (0, .finish true), (0, .markFileForDelete),
    (1, .startRound), (1, .collect .getRandomFileToDelete), (0, .checkExists)]

theorem newer_copy_removed : (∃ tr s, Run next fresh tr s ∧ ∃ p ∈ tr, RemovesNewer p.1 p.2 ∧
      ∃ q ∈ tr, Returns p.1.copy.began q.1 q.2) ∧
    ∃ tr s, Run next fresh tr s ∧ ∃ p ∈ tr, Refuses p.1 p.2 ∧ p.1.copy.marked = true := by
  constructor
  · have hexec : (exec next fresh markedTwice).any (fun r =>
        r.2.present && r.2.place 1 = .collecting (.found 2) none && r.2.copy.began = 3 &&
          (r.2.next (1, .collect (.remove true))).isSome &&
          r.1.any fun q => q.2.2 = .finish true && q.1.place q.2.1 = .writing 3) = true := by
      decide +kernel
    obtain ⟨⟨tr, s⟩, hexec, hs⟩ := (Option.any_eq_true _ _).mp hexec
    simp only [Bool.and_eq_true, decide_eq_true_eq, List.any_eq_true] at hs
    obtain ⟨⟨⟨⟨hpresent, hplace⟩, hbegan⟩, hnext⟩, q, hq, hfinish, hwriting⟩ := hs
    obtain ⟨t, hnext⟩ := Option.isSome_iff_exists.mp hnext
    refine ⟨_, t, (run_of_exec hexec).snoc hnext, _,
      List.mem_append_right _ (List.mem_singleton_self _), ?_, q, List.mem_append_left _ hq, ?_⟩
    · exact ⟨rfl, hpresent, 2, none, hplace, by rw [hbegan]; decide⟩
    · rw [hbegan]
      exact ⟨hfinish, hwriting⟩
  · have hexec : (exec next fresh nameInHand).any (fun r =>
        r.2.marked = none && r.2.copy.marked && (r.2.next (0, .isFileMarkedForDeletion)).isSome)
          = true := by
      decide +kernel
    obtain ⟨⟨tr, s⟩, hexec, hs⟩ := (Option.any_eq_true _ _).mp hexec
    simp only [Bool.and_eq_true, decide_eq_true_eq] at hs
    obtain ⟨⟨hunmarked, hmarked⟩, hnext⟩ := hs
    obtain ⟨t, hnext⟩ := Option.isSome_iff_exists.mp hnext
    exact ⟨_, t, (run_of_exec hexec).snoc hnext, _,
      List.mem_append_right _ (List.mem_singleton_self _), ⟨rfl, hunmarked⟩, hmarked⟩

end NameState

end Fluffi.Shared.GarbageCollector
