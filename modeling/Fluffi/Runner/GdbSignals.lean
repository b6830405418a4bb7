import Fluffi.Runner.GdbThread

/-! The signals among the lines that the debugger thread read: which of them report
one of our breakpoints, and which were given to `handleSignal`. The address of a
signal comes on a later line, so the last signal of a record may still wait for it. -/

namespace Fluffi.Runner.Gdb

/-! ### Signals of our breakpoints -/

def addresses (allBreakpoints : List GDBBreakpoint) : List UInt64 :=
  allBreakpoints.map GDBBreakpoint.m_absoluteAdress

/-- The address of a breakpoint, or one byte behind. -/
def Known (known : List UInt64) (addressLine : Line) : Prop :=
  ∃ signalAddress, stoull addressLine = some signalAddress ∧
    (signalAddress ∈ known ∨ signalAddress - 1 ∈ known)

/-- The line reports a SIGTRAP, and the first address in the lines after it is
that of a breakpoint. -/
def IsOurs (known : List UInt64) (line : Line) (after : List Line) : Prop :=
  isSignalMessage line = true ∧ (∃ name, signalName line = some name ∧ isSIGTRAP name = true) ∧
    ∃ addressLine, after.find? isAddressLine = some addressLine ∧ Known known addressLine

/-- A signal of one of our breakpoints was read, and `given` to `handleSignal` or not.
Its address may be among the lines that are still `coming`. -/
def Hit (known : List UInt64) (read : List (Line × Bool)) (coming : List Line) (given : Bool) :
    Prop :=
  ∃ before line after, read = before ++ (line, given) :: after ∧
    IsOurs known line (after.map Prod.fst ++ coming)

theorem isOurs_nil {known : List UInt64} {line : Line} : ¬ IsOurs known line [] := by
  rintro ⟨_, _, addressLine, hnone, _⟩
  cases hnone

/-- Later lines matter only to a signal without an address yet. -/
theorem isOurs_append_answered {known : List UInt64} {line : Line} {after coming : List Line}
    (h : (after.find? isAddressLine).isSome) :
    IsOurs known line (after ++ coming) ↔ IsOurs known line after := by
  obtain ⟨a, ha⟩ := Option.isSome_iff_exists.mp h
  have hsame : (after ++ coming).find? isAddressLine = some a := by
    rw [List.find?_append, ha, Option.some_or]
  simp only [IsOurs, ha, hsame]

theorem isOurs_snoc_waiting {known : List UInt64} {line x : Line} {after : List Line}
    (h : after.find? isAddressLine = none) :
    IsOurs known line (after ++ [x]) ↔ isSignalMessage line = true ∧
      (∃ name, signalName line = some name ∧ isSIGTRAP name = true) ∧
        isAddressLine x = true ∧ Known known x := by
  have hsnoc : (after ++ [x]).find? isAddressLine = [x].find? isAddressLine := by
    rw [List.find?_append, h, Option.none_or]
  simp only [IsOurs, hsnoc, List.find?_singleton]
  refine and_congr_right fun _ => and_congr_right fun _ => ?_
  cases isAddressLine x with
  | false => simp
  | true => simp

/-- A line that was read last belongs to what is coming for the lines before it. -/
theorem hit_snoc {known : List UInt64} {read : List (Line × Bool)} {x : Line} {g given : Bool} :
    Hit known (read ++ [(x, g)]) [] given ↔ Hit known read [x] given := by
  constructor
  · rintro ⟨before, line, after, hread, hours⟩
    cases after using List.reverseRecOn with
    | nil => exact absurd hours isOurs_nil
    | append_singleton after p =>
      rw [← List.cons_append, ← List.append_assoc] at hread
      obtain ⟨hsame, hp⟩ := List.append_inj' hread rfl
      obtain rfl : (x, g) = p := by simpa using hp
      exact ⟨before, line, after, hsame, by simpa using hours⟩
  · rintro ⟨before, line, after, rfl, hours⟩
    exact ⟨before, line, after ++ [(x, g)], by simp, by simpa using hours⟩

/-! ### What was given to `handleSignal` -/

/-- Every signal that was given has got its address. -/
def AllAnswered (read : List (Line × Bool)) : Prop :=
  ∀ before line after, read = before ++ (line, true) :: after →
    ((after.map Prod.fst).find? isAddressLine).isSome

/-- The last signal that was given waits for its address. -/
def Awaiting (name : Line) (read : List (Line × Bool)) : Prop :=
  ∃ before line after, read = before ++ (line, true) :: after ∧ isSignalMessage line = true ∧
    signalName line = some name ∧ (after.map Prod.fst).find? isAddressLine = none ∧
    (∀ p ∈ after, p.2 = false) ∧ AllAnswered before

variable {known : List UInt64} {read : List (Line × Bool)} {x name : Line}

theorem AllAnswered.snoc (h : AllAnswered read) : AllAnswered (read ++ [(x, false)]) := by
  intro before line after hread
  cases after using List.reverseRecOn with
  | nil =>
    obtain ⟨_, hp⟩ := List.append_inj' hread rfl
    simp at hp
  | append_singleton after p =>
    rw [← List.cons_append, ← List.append_assoc] at hread
    obtain ⟨hread, _⟩ := List.append_inj' hread rfl
    have hsome := h before line after hread
    rw [List.map_append, List.find?_append, Option.isSome_or, hsome, Bool.true_or]

theorem AllAnswered.hit_coming (h : AllAnswered read) {coming : List Line} :
    Hit known read coming true ↔ Hit known read [] true := by
  simp only [Hit, List.append_nil]
  constructor
  · rintro ⟨before, line, after, hread, hours⟩
    exact ⟨before, line, after, hread, (isOurs_append_answered (h _ _ _ hread)).mp hours⟩
  · rintro ⟨before, line, after, hread, hours⟩
    exact ⟨before, line, after, hread, (isOurs_append_answered (h _ _ _ hread)).mpr hours⟩

theorem AllAnswered.hit_snoc {g : Bool} (h : AllAnswered read) :
    Hit known (read ++ [(x, g)]) [] true ↔ Hit known read [] true :=
  Gdb.hit_snoc.trans h.hit_coming

theorem AllAnswered.give (h : AllAnswered read) (hsignal : isSignalMessage x = true)
    (hname : signalName x = some name) : Awaiting name (read ++ [(x, true)]) :=
  ⟨read, x, [], rfl, hsignal, hname, rfl, by simp, h⟩

/-- The signals that were given, in a record whose last one is awaiting. -/
theorem Awaiting.split (h : Awaiting name read) :
    ∃ start line rest, read = start ++ (line, true) :: rest ∧ isSignalMessage line = true ∧
      signalName line = some name ∧ (rest.map Prod.fst).find? isAddressLine = none ∧
      ∀ before l after, read = before ++ (l, true) :: after →
        (before = start ∧ l = line ∧ after = rest) ∨
          ((after.map Prod.fst).find? isAddressLine).isSome := by
  obtain ⟨start, line, rest, hread, hsignal, hname, hnone, hrest, hstart⟩ := h
  refine ⟨start, line, rest, hread, hsignal, hname, hnone, ?_⟩
  intro before l after hsplit
  rw [hread] at hsplit
  obtain ⟨mid, hmid, hafter⟩ | ⟨mid, hmid, hafter⟩ := List.append_eq_append_iff.mp hsplit
  · cases mid with
    | nil =>
      rw [List.nil_append, List.cons.injEq, Prod.mk.injEq] at hafter
      rw [List.append_nil] at hmid
      exact .inl ⟨hmid, hafter.1.1.symm, hafter.2.symm⟩
    | cons p mid =>
      rw [List.cons_append, List.cons.injEq] at hafter
      have hp : (l, true) ∈ rest := by
        rw [hafter.2]
        exact List.mem_append_right _ List.mem_cons_self
      exact absurd (hrest _ hp) (by simp)
  · cases mid with
    | nil =>
      rw [List.nil_append, List.cons.injEq, Prod.mk.injEq] at hafter
      rw [List.append_nil] at hmid
      exact .inl ⟨hmid.symm, hafter.1.1, hafter.2⟩
    | cons p mid =>
      rw [List.cons_append, List.cons.injEq] at hafter
      obtain ⟨rfl, hafter⟩ := hafter
      have hsome := hstart before l mid hmid
      right
      rw [hafter, List.map_append, List.find?_append, Option.isSome_or, hsome, Bool.true_or]

theorem Awaiting.snoc (h : Awaiting name read) (hx : isAddressLine x = false) :
    Awaiting name (read ++ [(x, false)]) := by
  obtain ⟨start, line, rest, rfl, hsignal, hname, hnone, hrest, hstart⟩ := h
  refine ⟨start, line, rest ++ [(x, false)], by simp, hsignal, hname, ?_, ?_, hstart⟩
  · rw [List.map_append, List.find?_append, hnone, Option.none_or]
    simp [hx]
  · intro p hp
    cases List.mem_append.mp hp with
    | inl hp => exact hrest p hp
    | inr hp =>
      obtain rfl := List.mem_singleton.mp hp
      rfl

/-- The address line decides whether the awaiting signal was one of ours. -/
theorem Awaiting.hit_snoc (h : Awaiting name read) :
    Hit known (read ++ [(x, false)]) [] true ↔
      Hit known read [] true ∨
        (isSIGTRAP name = true ∧ isAddressLine x = true ∧ Known known x) := by
  obtain ⟨start, line, rest, hread, hsignal, hname, hnone, hsplit⟩ := h.split
  rw [Gdb.hit_snoc]
  constructor
  · rintro ⟨before, l, after, hsame, hours⟩
    obtain ⟨rfl, rfl, rfl⟩ | hsome := hsplit before l after hsame
    · obtain ⟨_, ⟨name', hname', htrap⟩, haddress⟩ := (isOurs_snoc_waiting hnone).mp hours
      obtain rfl : name' = name := Option.some.inj (hname'.symm.trans hname)
      exact .inr ⟨htrap, haddress⟩
    · left
      refine ⟨before, l, after, hsame, ?_⟩
      rw [List.append_nil]
      exact (isOurs_append_answered hsome).mp hours
  · rintro (⟨before, l, after, hsame, hours⟩ | ⟨htrap, haddress⟩)
    · rw [List.append_nil] at hours
      obtain ⟨rfl, rfl, rfl⟩ | hsome := hsplit before l after hsame
      · obtain ⟨_, _, addressLine, hfind, _⟩ := hours
        rw [hnone] at hfind
        cases hfind
      · exact ⟨before, l, after, hsame, (isOurs_append_answered hsome).mpr hours⟩
    · exact ⟨start, line, rest, hread,
        (isOurs_snoc_waiting hnone).mpr ⟨hsignal, ⟨name, hname, htrap⟩, haddress⟩⟩

theorem Awaiting.answered (h : Awaiting name read) (hx : isAddressLine x = true) :
    AllAnswered (read ++ [(x, false)]) := by
  obtain ⟨start, line, rest, hread, _, _, _, hsplit⟩ := h.split
  intro before l after hsame
  cases after using List.reverseRecOn with
  | nil =>
    obtain ⟨_, hp⟩ := List.append_inj' hsame rfl
    simp at hp
  | append_singleton after p =>
    rw [← List.cons_append, ← List.append_assoc] at hsame
    obtain ⟨hbefore, hp⟩ := List.append_inj' hsame rfl
    obtain rfl : (x, false) = p := by simpa using hp
    rw [List.map_append, List.find?_append, Option.isSome_or]
    simp [hx]

end Fluffi.Runner.Gdb
