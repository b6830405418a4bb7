import Fluffi.Shared.CollectingThreads

/-! No name that was marked is forgotten. It stays in the set, or in the hand of a thread, until
its file is gone, and a round that nobody disturbs takes every name away if it has enough
iterations. -/

namespace Fluffi.Shared.CollectingThreads

open Systems

namespace State

variable {s t : State} {i j : ℕ} {a : Action} {place : Place} {file : String}

/-! ### Names in hand -/

def InHand (place : ℕ → Place) (file : String) : Prop := ∃ i, (place i).hand = some file

/-- The names in hand, seen from one thread. -/
theorem inHand_iff (f : ℕ → Place) (i : ℕ) :
    InHand f file ↔ (f i).hand = some file ∨ ∃ j, j ≠ i ∧ (f j).hand = some file := by
  constructor
  · rintro ⟨j, hj⟩
    by_cases hji : j = i
    · exact .inl (hji ▸ hj)
    · exact .inr ⟨j, hji, hj⟩
  · rintro (hi | ⟨j, -, hj⟩)
    · exact ⟨i, hi⟩
    · exact ⟨j, hj⟩

theorem inHand_update_iff (f : ℕ → Place) (i : ℕ) (place : Place) :
    InHand (Function.update f i place) file ↔
      place.hand = some file ∨ ∃ j, j ≠ i ∧ (f j).hand = some file := by
  rw [inHand_iff _ i, Function.update_self]
  refine or_congr Iff.rfl (exists_congr fun j => and_congr_right fun hj => ?_)
  rw [Function.update_of_ne hj]

@[simp] theorem move_self : (s.move i place).place i = place :=
  Function.update_self ..

theorem inHand_move (h : place.hand = (s.place i).hand) :
    InHand (s.move i place).place file ↔ InHand s.place file := by
  rw [move, inHand_update_iff, h, inHand_iff s.place i]

/-- A thread that has nothing in hand any more. -/
theorem inHand_of_update {f : ℕ → Place} (h : place.hand = none)
    (hfile : InHand (Function.update f i place) file) : InHand f file := by
  rw [inHand_update_iff, h] at hfile
  exact (inHand_iff f i).mpr (.inr (hfile.resolve_left nofun))

/-- A thread that had another name in hand, or none. -/
theorem inHand_update_of_ne {f : ℕ → Place} (h : (f i).hand ≠ some file)
    (hfile : InHand f file) : InHand (Function.update f i place) file := by
  rw [inHand_update_iff]
  exact .inr (((inHand_iff f i).mp hfile).resolve_left h)

/-- A name that is marked, or in hand, or has no file. -/
def Kept (s : State) (file : String) : Prop :=
  file ∈ s.m_setOfFilesToDelete ∨ InHand s.place file ∨ file ∉ s.files

theorem kept_move (h : place.hand = (s.place i).hand) :
    (s.move i place).Kept file ↔ s.Kept file := by
  rw [Kept, inHand_move h]
  rfl

/-- A thread lets go of its name, which matters to no other name. -/
theorem Kept.other {other : String} (h : s.Kept file) (hhand : (s.place i).hand = some other)
    (hne : other ≠ file) (hset : s.m_setOfFilesToDelete ⊆ t.m_setOfFilesToDelete)
    (hfiles : t.files ⊆ s.files) (hplace : t.place = Function.update s.place i place) :
    t.Kept file := by
  rcases h with hmarked | hothers | hgone
  · exact .inl (hset hmarked)
  · have hother : (s.place i).hand ≠ some file := by
      rw [hhand]
      exact fun hsome => hne (Option.some.inj hsome)
    exact .inr (.inl (hplace ▸ inHand_update_of_ne hother hothers))
  · exact .inr (.inr fun hmem => hgone (hfiles hmem))

/-- A name that is marked or in hand was so before, or it is marked now. -/
theorem Step.marked_before (h : Step s i a t)
    (hfile : file ∈ t.m_setOfFilesToDelete ∨ InHand t.place file) :
    file ∈ s.m_setOfFilesToDelete ∨ InHand s.place file ∨ a = .markFileForDelete file := by
  cases h with
  | markFileForDelete other hplace =>
    rcases hfile with hset | hhand
    · rcases Finset.mem_insert.mp hset with rfl | hset
      · exact .inr (.inr rfl)
      · exact .inl hset
    · exact .inr (.inl hhand)
  | startRound hplace hn => exact hfile.imp_right fun hhand => .inl (inHand_of_update rfl hhand)
  | noFile hplace hempty => exact hfile.imp_right fun hhand => .inl (inHand_of_update rfl hhand)
  | @pick left drawn other hplace hother =>
    rcases hfile with hset | hhand
    · exact .inl (Finset.mem_of_mem_erase hset)
    · rw [move, inHand_update_iff] at hhand
      rcases hhand with hhand | hothers
      · split at hhand <;> cases hhand
        exact .inl hother
      · exact .inr (.inl ((inHand_iff s.place i).mpr (.inr hothers)))
  | find hplace hthere =>
    exact hfile.imp_right fun hhand => .inl ((inHand_move (by rw [hplace]; rfl)).mp hhand)
  | miss hplace hgone => exact hfile.imp_right fun hhand => .inl (inHand_of_update rfl hhand)
  | remove hplace hthere =>
    exact hfile.imp_right fun hhand => .inl (inHand_of_update rfl hhand)
  | fail hplace hfail =>
    exact hfile.imp_right fun hhand => .inl ((inHand_move (by rw [hplace]; rfl)).mp hhand)
  | @markAgain left other hplace =>
    rcases hfile with hset | hhand
    · rcases Finset.mem_insert.mp hset with rfl | hset
      · exact .inr (.inl ⟨i, by rw [hplace, Place.hand]⟩)
      · exact .inl hset
    · exact .inr (.inl (inHand_of_update rfl hhand))
  | endRound hplace => exact hfile.imp_right fun hhand => .inl (inHand_of_update rfl hhand)

/-- What is kept stays so, and so is what is marked. -/
theorem Step.kept (h : Step s i a t) (hname : file ≠ "")
    (hfile : s.Kept file ∨ a = .markFileForDelete file) : t.Kept file := by
  cases h with
  | markFileForDelete other hplace =>
    rcases hfile with (hset | hrest) | heq
    · exact .inl (Finset.mem_insert_of_mem hset)
    · exact .inr hrest
    · cases heq
      exact .inl (Finset.mem_insert_self _ _)
  | startRound hplace hn =>
    exact (kept_move (by rw [hplace]; rfl)).mpr (hfile.resolve_right nofun)
  | noFile hplace hempty =>
    exact (kept_move (by rw [hplace]; rfl)).mpr (hfile.resolve_right nofun)
  | @pick left drawn other hplace hother =>
    rcases hfile.resolve_right nofun with hset | hhand | hgone
    · by_cases heq : file = other
      · -- from the set into the hand
        subst heq
        rw [if_neg hname]
        exact .inr (.inl ⟨i, by rw [move_self, Place.hand]⟩)
      · exact .inl (Finset.mem_erase.mpr ⟨heq, hset⟩)
    · exact .inr (.inl (inHand_update_of_ne (by rw [hplace]; exact nofun) hhand))
    · exact .inr (.inr hgone)
  | find hplace hthere =>
    exact (kept_move (by rw [hplace]; rfl)).mpr (hfile.resolve_right nofun)
  | @miss left other hplace hgone =>
    by_cases heq : other = file
    · exact .inr (.inr (heq ▸ hgone))
    · exact (hfile.resolve_right nofun).other (by rw [hplace]; rfl) heq (Finset.Subset.refl _)
        (Finset.Subset.refl _) rfl
  | @remove left other hplace hthere =>
    by_cases heq : other = file
    · exact .inr (.inr fun hmem => (Finset.mem_erase.mp hmem).1 heq.symm)
    · exact (hfile.resolve_right nofun).other (by rw [hplace]; rfl) heq (Finset.Subset.refl _)
        (Finset.erase_subset _ _) rfl
  | fail hplace hfail =>
    exact (kept_move (by rw [hplace]; rfl)).mpr (hfile.resolve_right nofun)
  | @markAgain left other hplace =>
    by_cases heq : other = file
    · -- from the hand into the set
      exact .inl (heq ▸ Finset.mem_insert_self _ _)
    · exact (hfile.resolve_right nofun).other (by rw [hplace]; rfl) heq (Finset.subset_insert _ _)
        (Finset.Subset.refl _) rfl
  | endRound hplace =>
    exact (kept_move (by rw [hplace]; rfl)).mpr (hfile.resolve_right nofun)

/-- A file goes only while its name is in hand. -/
theorem Step.removed (h : Step s i a t) (hthere : file ∈ s.files) (hgone : file ∉ t.files) :
    InHand s.place file := by
  cases h with
  | @remove left other hplace hother =>
    obtain rfl : file = other := by
      by_contra hne
      exact hgone (Finset.mem_erase.mpr ⟨hne, hthere⟩)
    exact ⟨i, by rw [hplace, Place.hand]⟩
  | _ => exact absurd hthere hgone

/-! ### Runs of many threads -/

variable {tr : List (State × (ℕ × Action))} {u : State} {e : ℕ × Action}

theorem marked_snoc : Marked s (tr ++ [(u, e)]) file ↔ Marked s tr file ∨ Marks file u e := by
  simp only [Marked, List.mem_append, List.mem_singleton, or_and_right, exists_or,
    exists_eq_left, or_assoc]

theorem inHand_of_marks (h : Marks file u e) :
    e.2 = .markFileForDelete file ∨ InHand u.place file := by
  rcases h with hmark | ⟨-, left, hplace⟩
  · exact .inl hmark
  · exact .inr ⟨e.1, by rw [hplace, Place.hand]⟩

/-- Only names that were marked are in the set or in hand, and they are kept. -/
theorem marked_and_kept (hidle : ∀ i, s.place i = .idle) (hr : Run next s tr t) :
    (file ∈ t.m_setOfFilesToDelete ∨ InHand t.place file → Marked s tr file) ∧
      (file ≠ "" → Marked s tr file → t.Kept file) := by
  refine hr.history (G := fun _ _ => True) (I := fun tr t =>
    (file ∈ t.m_setOfFilesToDelete ∨ InHand t.place file → Marked s tr file) ∧
      (file ≠ "" → Marked s tr file → t.Kept file)) (fun _ _ => trivial) ⟨?_, ?_⟩ ?_
  · rintro (hset | ⟨i, hi⟩)
    · exact .inl hset
    · rw [hidle i] at hi
      cases hi
  · rintro - (hset | ⟨p, hp, -⟩)
    · exact .inl hset
    · cases hp
  · rintro tr u ⟨i, a⟩ t ⟨hbefore, hkept⟩ - hnext
    have hstep := step_of_next hnext
    rw [marked_snoc]
    refine ⟨fun hfile => ?_, fun hname hmarked => hstep.kept hname ?_⟩
    · rcases hstep.marked_before hfile with hset | hhand | hmark
      · exact .inl (hbefore (.inl hset))
      · exact .inl (hbefore (.inr hhand))
      · exact .inr (.inl hmark)
    · rcases hmarked with hmarked | hmarks
      · exact .inl (hkept hname hmarked)
      · rcases inHand_of_marks hmarks with hmark | hhand
        · exact .inr hmark
        · exact .inl (.inr (.inl hhand))

/-- Whose file goes with the next step, that name was marked. -/
theorem marked_of_removed (hidle : ∀ i, s.place i = .idle) (hr : Run next s tr t)
    (hnext : next t e = some u) (hthere : file ∈ t.files) (hgone : file ∉ u.files) :
    Marked s tr file :=
  (marked_and_kept hidle hr).1 (.inr ((step_of_next hnext).removed hthere hgone))

/-! ### One round, undisturbed -/

/-- In a round of `n` iterations over `size` names each iteration takes one name away. -/
structure RoundInv (size n i : ℕ) (t : State) : Prop where
  names : "" ∉ t.m_setOfFilesToDelete
  left : ∀ left, (t.place i).left = some left →
    t.m_setOfFilesToDelete.card + n = size + left ∧ left ≤ n
  there : ∀ left file, t.place i = .found left file → file ∈ t.files
  succeeds : ∀ left file, t.place i ≠ .failed left file
  ended : t.place i = .idle → (t.m_setOfFilesToDelete = ∅ ↔ size ≤ n)

variable {size n : ℕ}

/-- An iteration is over, and the next one begins with the same names. -/
theorem RoundInv.loop {left : ℕ} (hinv : RoundInv size n i s)
    (hset : t.m_setOfFilesToDelete = s.m_setOfFilesToDelete)
    (hleft : (s.place i).left = some left) (hplace : t.place i = .loop left) :
    RoundInv size n i t where
  names := hset ▸ hinv.names
  left left' hleft' := by
    rw [hplace, Place.left] at hleft'
    rw [hset]
    exact hinv.left left' (hleft.trans hleft')
  there left' file hfound := by
    rw [hplace] at hfound
    cases hfound
  succeeds left' file hfailed := by
    rw [hplace] at hfailed
    cases hfailed
  ended hidle := by
    rw [hplace] at hidle
    cases hidle

/-- A step of the round keeps the invariant, and there are fewer steps to come. -/
theorem Step.roundInv (h : Step s i a t) (hround : InRound i (i, a)) (hinv : RoundInv size n i s) :
    RoundInv size n i t ∧ (t.place i).steps < (s.place i).steps := by
  obtain ⟨-, hstart, hmark, hfalse⟩ := hround
  cases h with
  | markFileForDelete file hplace => exact absurd rfl (hmark file)
  | startRound hplace hn => exact absurd rfl hstart
  | @noFile left drawn hplace hempty =>
    obtain ⟨hcard, hle⟩ := hinv.left (left + 1) (by rw [hplace, Place.left])
    rw [hempty, Finset.card_empty] at hcard
    refine ⟨⟨hinv.names, ?_, ?_, ?_, fun _ => ?_⟩, ?_⟩
    · simp [Place.left]
    · simp
    · simp
    · exact iff_of_true hempty (by omega)
    · simp [hplace, Place.steps]
  | @pick left drawn file hplace hfile =>
    obtain ⟨hcard, hle⟩ := hinv.left (left + 1) (by rw [hplace, Place.left])
    have hname : file ≠ "" := fun h => hinv.names (h ▸ hfile)
    have herase := Finset.card_erase_add_one hfile
    rw [if_neg hname]
    refine ⟨⟨fun h => hinv.names (Finset.mem_of_mem_erase h), fun left' hleft => ?_, ?_, ?_, ?_⟩,
      ?_⟩
    · obtain rfl : left = left' := by simpa [Place.left] using hleft
      simp only [move]
      omega
    · simp
    · simp
    · simp
    · rw [move_self, hplace, Place.steps, Place.steps]
      omega
  | @find left file hplace hthere =>
    refine ⟨⟨hinv.names, fun left' hleft => ?_, fun left' file' hfound => ?_, ?_, ?_⟩, ?_⟩
    · exact hinv.left left' (by rw [hplace, ← hleft, move_self]; rfl)
    · obtain ⟨rfl, rfl⟩ : left = left' ∧ file = file' := by simpa using hfound
      exact hthere
    · simp
    · simp
    · rw [move_self, hplace, Place.steps, Place.steps]
      omega
  | @miss left file hplace hgone =>
    refine ⟨hinv.loop rfl (by rw [hplace, Place.left]) move_self, ?_⟩
    rw [move_self, hplace, Place.steps, Place.steps]
    omega
  | @remove left file hplace hthere =>
    refine ⟨hinv.loop rfl (by rw [hplace, Place.left]) move_self, ?_⟩
    rw [move_self, hplace, Place.steps, Place.steps]
    omega
  | @fail left file succeeds hplace hfail =>
    cases succeeds with
    | true => exact absurd ⟨rfl, hinv.there left file hplace⟩ hfail
    | false => exact absurd rfl hfalse
  | markAgain hplace => exact absurd hplace (hinv.succeeds _ _)
  | endRound hplace =>
    obtain ⟨hcard, -⟩ := hinv.left 0 (by rw [hplace, Place.left])
    refine ⟨⟨hinv.names, ?_, ?_, ?_, fun _ => ?_⟩, ?_⟩
    · simp [Place.left]
    · simp
    · simp
    · simp only [move, ← Finset.card_eq_zero]
      omega
    · simp [hplace, Place.steps]

theorem round_run {s₁ : State} (hinv : RoundInv size n i s₁) (hr : Run next s₁ tr t)
    (hround : ∀ p ∈ tr, InRound i p.2) :
    RoundInv size n i t ∧ tr.length + (t.place i).steps ≤ (s₁.place i).steps := by
  induction hr with
  | nil => exact ⟨hinv, by rw [List.length_nil, Nat.zero_add]⟩
  | @snoc t u tr e hr hnext ih =>
    obtain ⟨hinv, hsteps⟩ := ih fun p hp => hround p (List.mem_append_left _ hp)
    have he := hround (t, e) (List.mem_append_right _ (List.mem_singleton_self _))
    obtain ⟨j, a⟩ := e
    obtain rfl : j = i := he.1
    obtain ⟨hinv', hless⟩ := (step_of_next hnext).roundInv he hinv
    refine ⟨hinv', ?_⟩
    rw [List.length_append, List.length_singleton]
    omega

theorem exists_nameAt {m_setOfFilesToDelete : Finset String}
    (hne : m_setOfFilesToDelete ≠ ∅) (hcard : m_setOfFilesToDelete.card < 2 ^ 31) :
    ∃ file, nameAt m_setOfFilesToDelete 0 = some file := by
  have hpos := Finset.card_pos.mpr (Finset.nonempty_iff_ne_empty.mpr hne)
  have hint : ((0 : ℕ) : ℤ) < intOf m_setOfFilesToDelete.card := by
    unfold intOf
    omega
  refine ⟨_, (if_pos hint).trans (List.getElem?_eq_getElem ?_)⟩
  rwa [Finset.length_sort]

/-- Up to its end a round can go on. -/
theorem exists_next (hinv : RoundInv size n i t) (hsize : size < 2 ^ 31)
    (hbusy : t.place i ≠ .idle) : ∃ e u, InRound i e ∧ next t e = some u := by
  suffices h : ∃ a u, (a ≠ .startRound ∧ (∀ file, a ≠ .markFileForDelete file) ∧
      a ≠ .remove false) ∧ next t (i, a) = some u by
    obtain ⟨a, u, ha, hu⟩ := h
    exact ⟨(i, a), u, ⟨rfl, ha⟩, hu⟩
  cases hplace : t.place i with
  | idle => exact absurd hplace hbusy
  | loop left =>
    cases left with
    | zero =>
      refine ⟨.endRound, t.move i .idle, by simp, ?_⟩
      simp only [next, hplace]
    | succ left =>
      obtain ⟨hcard, hle⟩ := hinv.left (left + 1) (by rw [hplace, Place.left])
      by_cases hempty : t.m_setOfFilesToDelete = ∅
      · refine ⟨.getRandomFileToDelete 0, t.move i .idle, by simp, ?_⟩
        simp only [next, hplace, if_pos hempty]
      · obtain ⟨file, hfile⟩ := exists_nameAt hempty (by omega)
        have hnext : ∃ u, next t (i, .getRandomFileToDelete 0) = some u := by
          simp only [next, hplace, if_neg hempty, hfile, Option.map_some]
          exact ⟨_, rfl⟩
        obtain ⟨u, hu⟩ := hnext
        exact ⟨_, u, by simp, hu⟩
  | picked left file =>
    refine ⟨.checkExists,
      t.move i (if file ∈ t.files then .found left file else .loop left), by simp, ?_⟩
    simp only [next, hplace]
  | found left file =>
    have hthere := hinv.there left file hplace
    refine ⟨.remove true, { t with files := t.files.erase file }.move i (.loop left), by simp, ?_⟩
    simp only [next, hplace, hthere, and_self, if_true]
  | failed left file => exact absurd hplace (hinv.succeeds left file)

theorem iterations_of_le (h : size ≤ 214748364) : iterations size = some (10 * size : ℤ) := by
  have hint : intOf size = size := by
    unfold intOf
    omega
  rw [iterations, hint, toInt_eq_some]
  exact ⟨⟨by omega, by omega⟩, Int.mul_comm _ _⟩

theorem le_of_iterations {m : ℤ} (h : iterations size = some m) (hle : size ≤ m.toNat) :
    size ≤ 214748364 := by
  rw [iterations, toInt_eq_some] at h
  obtain ⟨⟨hlo, hhi⟩, rfl⟩ := h
  unfold intOf at *
  omega

theorem start_roundInv (hnames : "" ∉ s.m_setOfFilesToDelete) (i n : ℕ) :
    RoundInv s.m_setOfFilesToDelete.card n i (s.move i (.loop n)) := by
  refine ⟨hnames, fun left hleft => ?_, ?_, ?_, ?_⟩
  · obtain rfl : n = left := by simpa [Place.left] using hleft
    exact ⟨rfl, le_rfl⟩
  · simp
  · simp
  · simp

/-- A round takes every name away if ten times their number is an `int`. -/
theorem empties_of_iff (hidle : s.place i = .idle) (hnames : "" ∉ s.m_setOfFilesToDelete) :
    Empties s i ↔ s.m_setOfFilesToDelete.card ≤ 214748364 := by
  constructor
  · rintro ⟨s₁, hstart, bound, hruns⟩
    obtain ⟨m, hm, rfl⟩ : ∃ m, iterations s.m_setOfFilesToDelete.card = some m ∧
        s.move i (.loop m.toNat) = s₁ := by
      simpa only [next, hidle, Option.map_eq_some_iff] using hstart
    obtain ⟨tr, t, hr, hround, hdone⟩ := Run.exists_done (D := fun t => t.place i = .idle)
      fun tr t hr hround => ⟨(hruns tr t hr hround).1, (hruns tr t hr hround).2.2⟩
    have hinv := (round_run (start_roundInv hnames i m.toNat) hr hround).1
    exact le_of_iterations hm ((hinv.ended hdone).mp ((hruns tr t hr hround).2.1 hdone))
  · intro hsize
    have hiterations := iterations_of_le hsize
    refine ⟨s.move i (.loop (10 * s.m_setOfFilesToDelete.card)), ?_,
      3 * (10 * s.m_setOfFilesToDelete.card) + 1, fun tr t hr hround => ?_⟩
    · simp only [next, hidle, hiterations, Option.map_some]
      congr 3
    · have hfirst : ((s.move i (.loop (10 * s.m_setOfFilesToDelete.card))).place i).steps =
          3 * (10 * s.m_setOfFilesToDelete.card) + 1 := by rw [move_self, Place.steps]
      obtain ⟨hinv, hsteps⟩ := round_run (start_roundInv hnames i _) hr hround
      refine ⟨by omega, fun hdone => ?_, fun hbusy => ?_⟩
      · exact (hinv.ended hdone).mpr (by omega)
      · exact exists_next hinv (by omega) hbusy

/-- For every set of marks and every run of the threads: a name that was ever marked is in the set
or has no file, and no step removes a file whose name was not marked before. A round that nothing
disturbs empties the set as long as ten times its size is an `int`. -/
theorem forgets_nothing (s : State) (hidle : ∀ i, s.place i = .idle) :
    (∀ tr t, Run next s tr t →
      ((∀ i, t.place i = .idle) → ∀ file, file ≠ "" → Marked s tr file →
        file ∈ t.m_setOfFilesToDelete ∨ file ∉ t.files) ∧
      ∀ e u, next t e = some u → ∀ file ∈ t.files, file ∉ u.files → Marked s tr file) ∧
    ("" ∉ s.m_setOfFilesToDelete →
      ∀ i, Empties s i ↔ s.m_setOfFilesToDelete.card ≤ 214748364) := by
  refine ⟨fun tr t hr => ⟨fun hidle' file hname hmarked => ?_, fun e u hnext file => ?_⟩,
    fun hnames i => empties_of_iff (hidle i) hnames⟩
  · rcases (marked_and_kept hidle hr).2 hname hmarked with hset | ⟨i, hi⟩ | hgone
    · exact .inl hset
    · rw [hidle' i] at hi
      cases hi
    · exact .inr hgone
  · exact marked_of_removed hidle hr hnext

theorem empties_two : Empties ⟨{"a", "b"}, {"a"}, fun _ => .idle⟩ 0 :=
  ((forgets_nothing ⟨{"a", "b"}, {"a"}, fun _ => .idle⟩ fun _ => rfl).2 (by decide) 0).mpr
    (by decide)

/-- So many names: the numbers from zero on. -/
def numbers (n : ℕ) : Finset String :=
  (Finset.range n).image fun k => String.ofList (Nat.toDigits 10 k)

theorem card_numbers (n : ℕ) : (numbers n).card = n := by
  rw [numbers, Finset.card_image_of_injective, Finset.card_range]
  intro k l h
  have hdigits := congrArg integerOf (String.ofList_injective h)
  rw [integerOf_toDigits, integerOf_toDigits, Option.some.injEq] at hdigits
  exact_mod_cast hdigits

theorem nil_notMem_numbers (n : ℕ) : "" ∉ numbers n := by
  intro h
  obtain ⟨k, -, hk⟩ := Finset.mem_image.mp h
  exact Nat.toDigits_ne_nil (String.ofList_injective hk)

/-- Ten times the size is no `int`. -/
theorem not_empties : ¬ Empties ⟨numbers 214748365, ∅, fun _ => .idle⟩ 0 := by
  rw [empties_of_iff rfl (nil_notMem_numbers _), card_numbers]
  omega

end State

end Fluffi.Shared.CollectingThreads
