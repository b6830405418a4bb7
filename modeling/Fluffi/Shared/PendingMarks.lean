import Fluffi.Shared.GarbageCollector

/-! Marks that are still to be acted on. No copy on disk is newer than a mark in the set or in
the hand of a collector, and a copy that was marked has such a mark, as long as stores open the
file only when no older mark is pending. -/

namespace Fluffi.Shared.GarbageCollector

open Systems

namespace NameState

/-! ### Pending marks -/

variable {s t : NameState} {i j : ℕ} {place : Place}

@[simp] theorem move_self : (s.move i place).place i = place := by
  simp [move]

theorem move_of_ne (hj : j ≠ i) : (s.move i place).place j = s.place j := by
  simp [move, hj]

/-- The marks seen from one thread: in the set, in its own hand, in another one's. -/
theorem pending_iff (s : NameState) (i mark : ℕ) :
    s.Pending mark ↔ s.marked = some mark ∨ (s.place i).hand.mark = some mark ∨
      ∃ j, j ≠ i ∧ (s.place j).hand.mark = some mark := by
  constructor
  · rintro (hmarked | ⟨j, hj⟩)
    · exact .inl hmarked
    · by_cases hji : j = i
      · exact .inr (.inl (hji ▸ hj))
      · exact .inr (.inr ⟨j, hji, hj⟩)
  · rintro (hmarked | hi | ⟨j, _, hj⟩)
    · exact .inl hmarked
    · exact .inr ⟨i, hi⟩
    · exact .inr ⟨j, hj⟩

theorem pending_move_iff (s : NameState) (i : ℕ) (place : Place) (mark : ℕ) :
    (s.move i place).Pending mark ↔ s.marked = some mark ∨ place.hand.mark = some mark ∨
      ∃ j, j ≠ i ∧ (s.place j).hand.mark = some mark := by
  rw [pending_iff _ i, move_self]
  refine or_congr Iff.rfl (or_congr Iff.rfl (exists_congr fun j => and_congr_right fun hj => ?_))
  rw [move_of_ne hj]

/-- A thread that holds nothing before and after its step leaves the marks pending. -/
theorem pending_move (hbefore : (s.place i).hand = .free) (hafter : place.hand = .free)
    (mark : ℕ) : (s.move i place).Pending mark ↔ s.Pending mark := by
  rw [pending_move_iff, pending_iff s i, hbefore, hafter]

/-- What a step does to the marks: one that is pending afterwards is as new as one
that was before, and as long as the file is there, none is lost. -/
structure Keeps (s t : NameState) : Prop where
  present : t.present = true → s.present = true
  older : ∀ mark, t.Pending mark → ∃ old, s.Pending old ∧ old ≤ mark
  lasting : t.present = true → (∃ mark, s.Pending mark) → ∃ mark, t.Pending mark

theorem collect_keeps {present : Bool} {marked : Option ℕ} {hand hand' : Hand}
    {waiting : Option ℕ} {step : CollectorStep} (hplace : s.place i = .collecting hand waiting)
    (h : collectGarbage s.present s.marked hand step = some (present, marked, hand')) :
    s.Keeps ({ s with present := present, marked := marked }.move i
      (.collecting hand' waiting)) := by
  obtain ⟨m, rfl, hmarked, rfl, rfl, rfl⟩ | ⟨m, rfl, rfl, rfl, rfl⟩ |
    ⟨m, rfl, _, rfl, rfl, rfl⟩ | ⟨m, rfl, rfl, rfl, rfl⟩ := collectGarbage_cases h
  · -- from the set into the hand
    have hsame : ∀ mark, ({ s with present := s.present, marked := none }.move i
        (.collecting (.picked m) waiting)).Pending mark ↔ s.Pending mark := by
      intro mark
      rw [pending_move_iff, pending_iff s i, hplace, hmarked]
      simp [Place.hand, Hand.mark]
    exact ⟨id, fun mark hmark => ⟨mark, (hsame mark).mp hmark, le_rfl⟩,
      fun _ ⟨mark, hmark⟩ => ⟨mark, (hsame mark).mpr hmark⟩⟩
  · refine ⟨id, ?_, ?_⟩
    · intro mark hmark
      rw [pending_move_iff] at hmark
      refine ⟨mark, (pending_iff s i mark).mpr ?_, le_rfl⟩
      rw [hplace]
      obtain hset | hhand | hother := hmark
      · exact .inl hset
      · right; left
        cases hpresent : s.present with
        | true => simpa [hpresent, Place.hand, Hand.mark] using hhand
        | false => simp [hpresent, Place.hand, Hand.mark] at hhand
      · exact .inr (.inr hother)
    · intro hpresent _
      have hpresent : s.present = true := hpresent
      refine ⟨m, (pending_move_iff _ i _ m).mpr (.inr (.inl ?_))⟩
      rw [hpresent]
      rfl
  · refine ⟨?_, ?_, ?_⟩
    · intro hpresent
      cases hpresent
    · intro mark hmark
      rw [pending_move_iff] at hmark
      refine ⟨mark, (pending_iff s i mark).mpr ?_, le_rfl⟩
      obtain hset | hhand | hother := hmark
      · exact .inl hset
      · cases hhand
      · exact .inr (.inr hother)
    · intro hpresent
      cases hpresent
  · have hheld : s.Pending m := by
      rw [pending_iff s i, hplace]
      exact .inr (.inl rfl)
    refine ⟨id, ?_, ?_⟩
    · intro mark hmark
      rw [pending_move_iff] at hmark
      obtain hset | hhand | hother := hmark
      · -- the name is in the set again, and not older than it was in the hand
        refine ⟨m, hheld, ?_⟩
        rw [← Option.some.inj hset]
        exact le_max_right _ _
      · cases hhand
      · exact ⟨mark, (pending_iff s i mark).mpr (.inr (.inr hother)), le_rfl⟩
    · intro _ _
      exact ⟨_, (pending_move_iff _ i _ _).mpr (.inl rfl)⟩

/-! ### The invariant -/

/-- Under the condition no copy is older than a mark that is pending, and a copy
that was marked has a mark pending. -/
structure Inv (s : NameState) : Prop where
  newer : s.present = true → ∀ mark, s.Pending mark → s.copy.began ≤ mark
  owed : s.present = true → s.copy.marked = true → ∃ mark, s.Pending mark
  copied : s.copy.began ≤ s.now
  started : ∀ i began, (s.place i).began = some began → began ≤ s.now

theorem start_inv (h : Start s) : s.Inv := by
  have hnothing : ∀ mark, ¬ s.Pending mark := by
    rintro mark (hset | ⟨i, hi⟩)
    · rw [h.unmarked] at hset
      cases hset
    · rw [h.idle] at hi
      cases hi
  refine ⟨fun _ mark hmark => absurd hmark (hnothing mark), ?_, h.began, ?_⟩
  · intro _ hmarked
    rw [h.fresh] at hmarked
    cases hmarked
  · intro i began hbegan
    rw [h.idle] at hbegan
    cases hbegan

/-- The copies that the other threads have begun stay the same. -/
theorem Inv.started_move (h : s.Inv)
    (hbegan : ∀ began, place.began = some began → began ≤ s.now) (j began : ℕ)
    (hj : ((s.move i place).place j).began = some began) : began ≤ s.now := by
  by_cases hji : j = i
  · subst hji
    rw [move_self] at hj
    exact hbegan began hj
  · rw [move_of_ne hji] at hj
    exact h.started j began hj

/-- A step that only moves a thread which holds nothing. -/
theorem Inv.move (h : s.Inv) (hbefore : (s.place i).hand = .free) (hafter : place.hand = .free)
    (hbegan : ∀ began, place.began = some began → began ≤ s.now) : (s.move i place).Inv := by
  refine ⟨?_, ?_, h.copied, h.started_move hbegan⟩
  · intro hpresent mark hmark
    exact h.newer hpresent mark ((pending_move hbefore hafter mark).mp hmark)
  · intro hpresent hmarked
    obtain ⟨mark, hmark⟩ := h.owed hpresent hmarked
    exact ⟨mark, (pending_move hbefore hafter mark).mpr hmark⟩

theorem Inv.tick (h : s.Inv) : Inv { s with now := s.now + 1 } :=
  ⟨h.newer, h.owed, Nat.le_succ_of_le h.copied,
    fun i began hbegan => Nat.le_succ_of_le (h.started i began hbegan)⟩

theorem Inv.mark (h : s.Inv) : Inv { s with
    now := s.now + 1
    marked := markFileForDelete s.marked s.now
    copy := { s.copy with marked := s.copy.marked || s.present } } := by
  refine ⟨?_, ?_, Nat.le_succ_of_le h.copied,
    fun i began hbegan => Nat.le_succ_of_le (h.started i began hbegan)⟩
  · rintro hpresent mark (hset | ⟨i, hi⟩)
    · rw [← Option.some.inj hset]
      exact h.copied.trans (le_max_right _ _)
    · exact h.newer hpresent mark (.inr ⟨i, hi⟩)
  · intro _ _
    exact ⟨_, .inl rfl⟩

theorem Inv.collect (h : s.Inv) {present : Bool} {marked : Option ℕ} {hand hand' : Hand}
    {waiting : Option ℕ} {step : CollectorStep} (hplace : s.place i = .collecting hand waiting)
    (hcollect : collectGarbage s.present s.marked hand step = some (present, marked, hand')) :
    Inv ({ s with present := present, marked := marked }.move i
      (.collecting hand' waiting)) := by
  have hkeeps := collect_keeps hplace hcollect
  have hbegan : ∀ began, (s.place i).began = some began → began ≤ s.now := h.started i
  rw [hplace] at hbegan
  refine ⟨?_, ?_, h.copied, h.started_move hbegan⟩
  · intro hpresent mark hmark
    obtain ⟨old, hold, hle⟩ := hkeeps.older mark hmark
    exact (h.newer (hkeeps.present hpresent) old hold).trans hle
  · intro hpresent hmarked
    exact hkeeps.lasting hpresent (h.owed (hkeeps.present hpresent) hmarked)

/-- The file is opened for a new copy: this is where the condition is needed. -/
theorem Inv.opened (h : s.Inv) {began : ℕ} (hplace : s.place i = .openFile began)
    (hpending : ∀ mark, s.Pending mark → began ≤ mark) :
    Inv ({ s with present := true, copy := ⟨began, false⟩ }.move i (.writing began)) := by
  have hbegan : began ≤ s.now := h.started i began (by rw [hplace]; rfl)
  refine ⟨?_, ?_, hbegan, h.started_move fun b hb => ?_⟩
  · intro _ mark hmark
    have hfree : (s.place i).hand = .free := by
      rw [hplace]
      rfl
    exact hpending mark ((pending_move hfree rfl mark).mp hmark)
  · intro _ hmarked
    cases hmarked
  · cases hb
    exact hbegan

theorem Inv.next {e : ℕ × Action} (h : s.Inv) (hg : s.Undisturbed e) (hnext : s.next e = some t) :
    t.Inv := by
  obtain ⟨i, action⟩ := e
  have hbegan : ∀ began, (s.place i).began = some began → began ≤ s.now := h.started i
  cases action with
  | markFileForDelete =>
    simp only [NameState.next] at hnext
    split at hnext
    · cases hnext
      exact h.mark
    · cases hnext
  | startRound =>
    simp only [NameState.next] at hnext
    split at hnext
    case h_1 hplace =>
      cases hnext
      exact h.move (by rw [hplace]; rfl) rfl (by simp [Place.began])
    · cases hnext
  | collect step =>
    simp only [NameState.next] at hnext
    split at hnext
    case h_1 hand waiting hplace =>
      obtain ⟨⟨present, marked, hand'⟩, hcollect, rfl⟩ := Option.map_eq_some_iff.mp hnext
      exact h.collect hplace hcollect
    · cases hnext
  | endRound =>
    simp only [NameState.next] at hnext
    split at hnext
    case h_1 hplace =>
      cases hnext
      exact h.move (by rw [hplace]; rfl) rfl (by simp [Place.began])
    case h_2 began hplace =>
      cases hnext
      refine h.move (by rw [hplace]; rfl) rfl ?_
      rw [hplace] at hbegan
      exact hbegan
    · cases hnext
  | checkExists =>
    simp only [NameState.next] at hnext
    split at hnext
    case h_1 hplace =>
      cases hnext
      refine h.tick.move (by rw [hplace]; rfl) ?_ ?_
      · split <;> rfl
      · intro began heq
        have hnow : began = s.now := by
          split at heq <;> exact (Option.some.inj heq).symm
        rw [hnow]
        exact Nat.le_succ _
    · cases hnext
  | isFileMarkedForDeletion =>
    simp only [NameState.next] at hnext
    split at hnext
    case h_1 began hplace =>
      cases hnext
      rw [hplace] at hbegan
      refine h.move (by rw [hplace]; rfl) ?_ ?_
      · split <;> rfl
      · split
        · exact hbegan
        · simp [Place.began]
    · cases hnext
  | waitTurn m_stopRequested =>
    simp only [NameState.next] at hnext
    split at hnext
    case h_1 began hplace =>
      cases hnext
      rw [hplace] at hbegan
      refine h.move (by rw [hplace]; rfl) ?_ ?_
      · split <;> rfl
      · split <;> exact hbegan
    · cases hnext
  | checkDeleted =>
    simp only [NameState.next] at hnext
    split at hnext
    case h_1 began hplace =>
      cases hnext
      rw [hplace] at hbegan
      refine h.move (by rw [hplace]; rfl) ?_ ?_
      · split <;> rfl
      · split
        · simp [Place.began]
        · exact hbegan
    · cases hnext
  | openFile opens =>
    simp only [NameState.next] at hnext
    split at hnext
    case h_1 began hplace =>
      split at hnext
      case isTrue hopens =>
        subst hopens
        cases hnext
        exact h.opened hplace (hg.opens began rfl hplace)
      case isFalse =>
        cases hnext
        exact h.move (by rw [hplace]; rfl) rfl (by simp [Place.began])
    · cases hnext
  | finish success =>
    simp only [NameState.next] at hnext
    split at hnext
    case h_1 began hplace =>
      cases hnext
      exact h.move (by rw [hplace]; rfl) rfl (by simp [Place.began])
    · cases hnext

end NameState

end Fluffi.Shared.GarbageCollector
