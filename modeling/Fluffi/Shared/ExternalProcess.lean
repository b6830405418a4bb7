import Fluffi.Systems.Run
import Mathlib.Logic.Function.Basic

/-! Threads that supervise child processes on Linux. A stop or an exit of any child
sets the one pending SIGCHLD of the process. Whichever thread waits for the signal
takes it away, and then asks only for its own child. -/

namespace Fluffi.Shared

open Systems

/-! ### Threads and children -/

inductive StopSignal
  | SIGTRAP | SIGCHLD | SIGILL | SIGSEGV
  | other (number : ℕ)
  deriving DecidableEq, Repr

/-- A child, and whether `waitpid` has reported its stop or exit. -/
inductive Child
  | running
  | stopped (signal : StopSignal) (collected : Bool)
  | exited (collected : Bool)
  deriving DecidableEq, Repr

/-- The function that supervises the child. The flags of `debug` are
`m_targetIsSentNudges` and `treatAnyAccessViolationAsFatal`. -/
inductive Supervision
  | run
  | runAndWaitForCompletion
  | debug (m_targetIsSentNudges treatAnyAccessViolationAsFatal : Bool)
  deriving DecidableEq, Repr

/-- Where the thread is: before its loop, in `sigtimedwait`, back from it with a
SIGCHLD, or out of the function. -/
inductive WaitPhase
  | ready | blocked | woken | returned
  deriving DecidableEq, Repr

structure ExternalProcess where
  supervision : Supervision
  phase : WaitPhase
  isfirstStop : Bool
  lastCrash : ℕ
  child : Child
  deriving DecidableEq, Repr

namespace Child

/-- A stop or exit that `waitpid` has not reported. -/
def uncollected : Child → Bool
  | .stopped _ collected => !collected
  | .exited collected => !collected
  | .running => false

def hasExited : Child → Bool
  | .exited _ => true
  | _ => false

/-- `ptrace` with `PTRACE_CONT` or `PTRACE_DETACH`, which fails unless the child is stopped. -/
def resume : Child → Child
  | .stopped _ _ => .running
  | child => child

end Child

namespace ExternalProcess

/-- `die`, and whether the killed child raises a SIGCHLD. -/
def die (p : ExternalProcess) : ExternalProcess × Bool :=
  ({ p with phase := .returned, child := .exited true }, !p.child.hasExited)

/-- Back to `sigtimedwait`, with the child resumed. -/
def resume (p : ExternalProcess) : ExternalProcess × Bool :=
  ({ p with phase := .blocked, child := p.child.resume }, false)

/-- `WIFSTOPPED(status)` in `runAndWaitForCompletion` -/
def stoppedInRun (p : ExternalProcess) (signal : StopSignal) : ExternalProcess × Bool :=
  if p.isfirstStop then { p with isfirstStop := false }.resume
  else match signal with
    | .SIGTRAP => p.resume
    | .SIGCHLD => p.resume
    | _ => p.die

/-- `WIFSTOPPED(status)` in `debug`; `instructionPointer` is read from the child's registers. -/
def stoppedInDebug (p : ExternalProcess) (m_targetIsSentNudges fatal : Bool) (signal : StopSignal)
    (instructionPointer : ℕ) : ExternalProcess × Bool :=
  if p.isfirstStop then { p with isfirstStop := false }.resume
  else match signal with
    | .SIGTRAP => p.resume
    | .SIGCHLD => p.resume
    | signal =>
      if signal = .SIGILL ∧ m_targetIsSentNudges then p.resume
      else if signal = .SIGSEGV ∧ fatal then p.die
      else if p.lastCrash ≠ instructionPointer then
        { p with lastCrash := instructionPointer }.resume
      else p.die

/-- From `waitpid` with `WNOHANG` to the end of the loop's body. -/
def check (p : ExternalProcess) (instructionPointer : ℕ) : ExternalProcess × Bool :=
  match p.child with
  -- `waitpid` returns 0: the signal was not for this child.
  | .running => ({ p with phase := .blocked }, false)
  | .stopped _ true => ({ p with phase := .blocked }, false)
  -- `waitpid` returns -1.
  | .exited true => p.die
  | .exited false =>
    let p := { p with child := .exited true }
    match p.supervision with
    | .run => ({ p with phase := .blocked }, false)
    | _ => ({ p with phase := .returned }, false)
  | .stopped signal false =>
    let p := { p with child := .stopped signal true }
    match p.supervision with
    | .run => ({ p with phase := .returned, child := p.child.resume }, false)
    | .runAndWaitForCompletion => p.stoppedInRun signal
    | .debug m_targetIsSentNudges fatal =>
      p.stoppedInDebug m_targetIsSentNudges fatal signal instructionPointer

end ExternalProcess

/-! ### The process -/

/-- All threads with their children, and the pending SIGCHLD. -/
structure Supervisors (ι : Type*) where
  sigchld : Bool
  processes : ι → ExternalProcess

inductive SupervisorEvent (ι : Type*)
  | enter (i : ι)
  | stops (i : ι) (signal : StopSignal)
  | exits (i : ι)
  | wake (i : ι)
  | check (i : ι) (instructionPointer : ℕ)
  | timeout (i : ι)
  | interrupt (i : ι)
  | destruct (i : ι)

namespace Supervisors

variable {ι : Type*} [DecidableEq ι]

def set (s : Supervisors ι) (i : ι) (p : ExternalProcess) (raises : Bool) : Supervisors ι :=
  ⟨s.sigchld || raises, Function.update s.processes i p⟩

def next (s : Supervisors ι) : SupervisorEvent ι → Option (Supervisors ι)
  | .enter i =>
    if (s.processes i).phase = .ready then
      some (s.set i { s.processes i with phase := .blocked } false)
    else none
  | .stops i signal =>
    if (s.processes i).child = .running then
      some (s.set i { s.processes i with child := .stopped signal false } true)
    else none
  | .exits i =>
    if (s.processes i).child.hasExited then none
    else some (s.set i { s.processes i with child := .exited false } true)
  | .wake i =>
    if (s.processes i).phase = .blocked ∧ s.sigchld = true then
      some ⟨false, Function.update s.processes i { s.processes i with phase := .woken }⟩
    else none
  | .check i instructionPointer =>
    if (s.processes i).phase = .woken then
      let (p, raises) := (s.processes i).check instructionPointer
      some (s.set i p raises)
    else none
  | .timeout i =>
    if (s.processes i).phase = .blocked then
      let (p, raises) := (s.processes i).die
      some (s.set i p raises)
    else none
  -- `EINTR`: the child is resumed, whether its stop was collected or not.
  | .interrupt i =>
    if (s.processes i).phase = .blocked then
      let (p, raises) := (s.processes i).resume
      some (s.set i p raises)
    else none
  | .destruct i =>
    if (s.processes i).phase = .returned then
      let (p, raises) := (s.processes i).die
      some (s.set i p raises)
    else none

/-- Nothing is pending, and every thread in its loop is in `sigtimedwait`. -/
def Quiescent (s : Supervisors ι) : Prop :=
  s.sigchld = false ∧ ∀ i, (s.processes i).phase ≠ .woken

/-- No thread that waits has a child with a stop or exit that it has not collected. -/
def NoneLost (s : Supervisors ι) : Prop :=
  ∀ i, (s.processes i).phase = .blocked → (s.processes i).child.uncollected = false

/-- A thread that takes the signal is the only one that it may be meant for. -/
def TakesOwn (s : Supervisors ι) : SupervisorEvent ι → Prop
  | .wake i => ∀ j, j ≠ i → (s.processes j).phase = .ready ∨ (s.processes j).phase = .blocked →
      (s.processes j).child.uncollected = false
  | _ => True

/-- The threads have not entered their loops, and their children are running. -/
def Initialized (s : Supervisors ι) : Prop :=
  ∀ i, (s.processes i).phase = .ready ∧ (s.processes i).child = .running

end Supervisors

/-! ### One thread -/

namespace ExternalProcess

/-- A thread that will wait has collected everything of its child. -/
def Collected (p : ExternalProcess) : Prop :=
  p.phase = .ready ∨ p.phase = .blocked → p.child.uncollected = false

theorem collected_of_returned {p : ExternalProcess} (h : p.phase = .returned) : p.Collected := by
  rintro (hready | hblocked)
  · rw [h] at hready
    cases hready
  · rw [h] at hblocked
    cases hblocked

theorem uncollected_resume {child : Child} (h : child ≠ .exited false) :
    child.resume.uncollected = false := by
  cases child with
  | running => rfl
  | stopped _ _ => rfl
  | exited collected =>
    cases collected with
    | true => rfl
    | false => exact absurd rfl h

theorem die_collected (p : ExternalProcess) : p.die.1.Collected :=
  collected_of_returned rfl

theorem resume_collected {p : ExternalProcess} (h : p.child ≠ .exited false) :
    p.resume.1.Collected := fun _ => uncollected_resume h

theorem stoppedInRun_collected {p : ExternalProcess} (h : p.child ≠ .exited false)
    (signal : StopSignal) : (p.stoppedInRun signal).1.Collected := by
  unfold stoppedInRun
  split
  · exact resume_collected h
  · split
    · exact resume_collected h
    · exact resume_collected h
    · exact die_collected p

theorem stoppedInDebug_collected {p : ExternalProcess} (h : p.child ≠ .exited false)
    (nudges fatal : Bool) (signal : StopSignal) (instructionPointer : ℕ) :
    (p.stoppedInDebug nudges fatal signal instructionPointer).1.Collected := by
  unfold stoppedInDebug
  split
  · exact resume_collected h
  · split
    · exact resume_collected h
    · exact resume_collected h
    · split_ifs
      · exact resume_collected h
      · exact die_collected p
      · exact resume_collected h
      · exact die_collected p

/-- `waitpid` has nothing to report of a running child, and the thread waits again. -/
theorem check_of_running {p : ExternalProcess} (h : p.child = .running)
    (instructionPointer : ℕ) :
    p.check instructionPointer = ({ p with phase := .blocked }, false) := by
  cases p
  obtain rfl := h
  rfl

/-- A thread that asked for its child has collected everything of it. -/
theorem check_collected (p : ExternalProcess) (instructionPointer : ℕ) :
    (p.check instructionPointer).1.Collected := by
  unfold check
  split
  next hchild => exact fun _ => by rw [hchild]; rfl
  next hchild => exact fun _ => by rw [hchild]; rfl
  next hchild => exact die_collected p
  next hchild =>
    dsimp only
    split
    · exact fun _ => rfl
    · exact collected_of_returned rfl
  next signal hchild =>
    dsimp only
    split
    · exact collected_of_returned rfl
    · exact stoppedInRun_collected (by rintro ⟨⟩) signal
    · exact stoppedInDebug_collected (by rintro ⟨⟩) _ _ _ _

end ExternalProcess

/-! ### All threads -/

namespace Supervisors

variable {ι : Type*} [DecidableEq ι]

/-- Something is pending, or there is nothing to be told to anyone. -/
def Notified (s : Supervisors ι) : Prop :=
  s.sigchld = true ∨ ∀ i, (s.processes i).Collected

/-- One thread may change where it collects everything if it had. -/
theorem Notified.set {s : Supervisors ι} (hs : s.Notified) {i : ι} {p : ExternalProcess}
    {raises : Bool} (hp : (s.processes i).Collected → p.Collected) :
    (s.set i p raises).Notified := by
  rcases hs with hsigchld | hall
  · exact .inl (by simp [Supervisors.set, hsigchld])
  · refine .inr fun j => ?_
    by_cases hj : j = i
    · subst hj
      simpa [Supervisors.set] using hp (hall j)
    · simpa [Supervisors.set, hj] using hall j

theorem set_raises_notified (s : Supervisors ι) (i : ι) (p : ExternalProcess) :
    (s.set i p true).Notified := .inl (by simp [Supervisors.set])

theorem Notified.next {s t : Supervisors ι} {e : SupervisorEvent ι} (hs : s.Notified)
    (hown : s.TakesOwn e) (h : s.next e = some t) : t.Notified := by
  cases e with
  | enter i =>
    obtain ⟨hready, ht⟩ := Option.ite_none_right_eq_some.mp h
    obtain rfl := Option.some.inj ht
    exact hs.set fun hcollected _ => hcollected (.inl hready)
  | stops i signal =>
    obtain ⟨-, ht⟩ := Option.ite_none_right_eq_some.mp h
    obtain rfl := Option.some.inj ht
    exact set_raises_notified _ _ _
  | exits i =>
    obtain ⟨-, ht⟩ := Option.ite_none_left_eq_some.mp h
    obtain rfl := Option.some.inj ht
    exact set_raises_notified _ _ _
  | wake i =>
    obtain ⟨-, ht⟩ := Option.ite_none_right_eq_some.mp h
    obtain rfl := Option.some.inj ht
    refine .inr fun j => ?_
    by_cases hj : j = i
    · subst hj
      simp [ExternalProcess.Collected]
    · simpa [hj, ExternalProcess.Collected] using hown j hj
  | check i instructionPointer =>
    obtain ⟨-, ht⟩ := Option.ite_none_right_eq_some.mp h
    obtain rfl := Option.some.inj ht
    exact hs.set fun _ => ExternalProcess.check_collected _ _
  | timeout i =>
    obtain ⟨-, ht⟩ := Option.ite_none_right_eq_some.mp h
    obtain rfl := Option.some.inj ht
    exact hs.set fun _ => ExternalProcess.die_collected _
  | interrupt i =>
    obtain ⟨hblocked, ht⟩ := Option.ite_none_right_eq_some.mp h
    obtain rfl := Option.some.inj ht
    refine hs.set fun hcollected => ExternalProcess.resume_collected fun hexited => ?_
    have hfalse := hcollected (.inr hblocked)
    rw [hexited] at hfalse
    cases hfalse
  | destruct i =>
    obtain ⟨-, ht⟩ := Option.ite_none_right_eq_some.mp h
    obtain rfl := Option.some.inj ht
    exact hs.set fun _ => ExternalProcess.die_collected _

omit [DecidableEq ι] in
theorem Initialized.notified {s : Supervisors ι} (h : s.Initialized) : s.Notified :=
  .inr fun i _ => by rw [(h i).2]; rfl

/-- If every thread that takes the signal is the only one that it may be meant for, no event
is lost when all threads wait with nothing pending. -/
theorem noneLost_of_takesOwn {s₀ s : Supervisors ι} (h₀ : s₀.Initialized)
    {tr : List (Supervisors ι × SupervisorEvent ι)} (hr : Run next s₀ tr s)
    (hown : ∀ p ∈ tr, p.1.TakesOwn p.2) :
    (s.Quiescent → s.NoneLost) ∧ ∀ p ∈ tr, p.1.Quiescent → p.1.NoneLost := by
  have hlost {s : Supervisors ι} (hs : s.Notified) (hquiescent : s.Quiescent) : s.NoneLost := by
    rcases hs with hsigchld | hall
    · rw [hquiescent.1] at hsigchld
      cases hsigchld
    · exact fun i hblocked => hall i (.inr hblocked)
  obtain ⟨hs, hpast⟩ := hr.invariant_mem hown h₀.notified
    fun hs hown hstep => Notified.next hs hown hstep
  exact ⟨hlost hs, fun p hp => hlost (hpast p hp)⟩

/-- `debug` for the target and `runAndWaitForCompletion` for the feeder. -/
def targetAndFeeder : Supervisors Bool where
  sigchld := false
  processes isTarget :=
    ⟨if isTarget then .debug false false else .runAndWaitForCompletion, .ready, true, 0, .running⟩

/-- Each thread collects the initial stop of its own child. -/
theorem noneLost_targetAndFeeder :
    ∃ tr s, Run next targetAndFeeder tr s ∧ tr.length = 8 ∧ (s.Quiescent → s.NoneLost) := by
  have hexec : (exec next targetAndFeeder [.enter true, .stops true (.other 19), .wake true,
      .check true 0, .enter false, .stops false (.other 19), .wake false, .check false 0]).any
      (fun r => decide (r.1.length = 8) && r.1.all fun p =>
        match p.2 with
        | .wake i => !(p.1.processes !i).child.uncollected
        | _ => true) = true := by decide
  obtain ⟨⟨tr, s⟩, hexec, hs⟩ := (Option.any_eq_true _ _).mp hexec
  rw [Bool.and_eq_true, decide_eq_true_eq, List.all_eq_true] at hs
  have hown : ∀ p ∈ tr, p.1.TakesOwn p.2 := by
    rintro ⟨x, e⟩ hp
    have hx := hs.2 _ hp
    cases e with
    | wake i =>
      intro j hj _
      obtain rfl : j = !i := by
        cases i <;> cases j <;> simp_all
      simpa using hx
    | _ => trivial
  exact ⟨tr, s, run_of_exec hexec, hs.1,
    (noneLost_of_takesOwn (fun _ => ⟨rfl, rfl⟩) (run_of_exec hexec) hown).1⟩

/-- A single thread takes only what is meant for it. -/
theorem noneLost_of_subsingleton [Subsingleton ι] {s₀ s : Supervisors ι} (h₀ : s₀.Initialized)
    {tr : List (Supervisors ι × SupervisorEvent ι)} (hr : Run next s₀ tr s)
    (hquiescent : s.Quiescent) : s.NoneLost := by
  have hown : ∀ p ∈ tr, p.1.TakesOwn p.2 := by
    rintro ⟨x, e⟩ -
    cases e with
    | wake i => exact fun j hj => absurd (Subsingleton.elim j i) hj
    | _ => trivial
  exact (noneLost_of_takesOwn h₀ hr hown).1 hquiescent

/-- A thread whose child has nothing to report takes the signal of another thread's child.
When it waits again, that thread is never told. -/
theorem lost_of_wake {s : Supervisors ι} {i j : ι} (hij : j ≠ i)
    (hwait : ∀ k, (s.processes k).phase ≠ .woken) (hi : (s.processes i).phase = .blocked)
    (hichild : (s.processes i).child = .running) (hj : (s.processes j).phase = .blocked)
    (hjchild : (s.processes j).child.uncollected = true) (hsigchld : s.sigchld = true) :
    ∃ tr t, Run next s tr t ∧ t.Quiescent ∧ ¬ t.NoneLost := by
  let woken : Supervisors ι :=
    ⟨false, Function.update s.processes i { s.processes i with phase := .woken }⟩
  have hwake : next s (.wake i) = some woken := if_pos ⟨hi, hsigchld⟩
  have hwoken : (woken.processes i).phase = .woken := by simp [woken]
  have hcheck : next woken (.check i 0) = some (woken.set i ((woken.processes i).check 0).1
      ((woken.processes i).check 0).2) := if_pos hwoken
  rw [ExternalProcess.check_of_running (by simpa [woken] using hichild)] at hcheck
  refine ⟨_, _, .snoc (.single hwake) hcheck, ⟨rfl, fun k => ?_⟩, fun hnone => ?_⟩
  · by_cases hk : k = i
    · subst hk
      simp [Supervisors.set]
    · simpa [Supervisors.set, woken, hk] using hwait k
  · have hlost := hnone j (by simpa [Supervisors.set, woken, hij] using hj)
    have hreport : (s.processes j).child.uncollected = false := by
      simpa [Supervisors.set, woken, hij] using hlost
    rw [hjchild] at hreport
    cases hreport

/-- The feeder's thread takes the signal of the target's initial stop, and the target stays
stopped. -/
theorem target_lost :
    ∃ tr s, Run next targetAndFeeder tr s ∧ s.Quiescent ∧ ¬ s.NoneLost := by
  have hrun := run_of_exec (rfl : exec next targetAndFeeder [.enter true, .enter false,
    .stops true (.other 19), .wake false, .check false 0] = some (_, _))
  refine ⟨_, _, hrun, ⟨rfl, fun i => ?_⟩, fun hnone => ?_⟩
  · cases i <;> decide
  · have htarget := hnone true rfl
    exact absurd htarget (by decide)

end Supervisors

end Fluffi.Shared
