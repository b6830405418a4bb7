import Fluffi.Runner.TestExecutor
import Fluffi.Systems.Deadlines
import Mathlib.Data.Int.ConditionallyCompleteOrder

/-! The waits of the test executors. The functions that wait compute a deadline when they are
entered, and give each wait what is then left of the time, cast to the type of its parameter.
The wait for a message is a `pselect` that is called again, with the same timeout, after each
signal. -/

namespace Fluffi.Runner

open Shared SharedMem SharedMemMessageType Systems Deadlines

/-! ### The waits that are started -/

/-- A configured timeout: an `int` that is not negative. -/
abbrev TimeoutMS := Fin (2 ^ 31)

/-- What `std::chrono::steady_clock::now()` returns when a function is entered, and before each
of the waits it starts: nanoseconds in a `long long`. The readings of the loops that poll lie
between them. -/
structure SteadyClock where
  now : ℕ → ℤ
  mono : Monotone now
  fits : ∀ n, -2 ^ 63 ≤ now n ∧ now n < 2 ^ 63

/-- The type that the remaining time is cast to. -/
inductive Cast where
  /-- `waitForNewMessageToServer` -/
  | unsignedLong
  /-- `dr_nudge_pid` -/
  | uint
  /-- `waitUntilCoverageState` -/
  | int
  deriving DecidableEq, Repr

def Cast.apply : Cast → ℤ → ℤ
  | .unsignedLong => toUnsigned 64
  | .uint => toUnsigned 32
  | .int => toSigned 32

/-- `routineEntryTimeStamp + std::chrono::milliseconds(timeoutMS)` -/
def SteadyClock.latestRoutineExitTimeStamp (clock : SteadyClock) (timeoutMS : TimeoutMS) : ℤ :=
  clock.now 0 + timeoutMS.val * 1000000

/-- The timeout of the wait that starts at the `n`-th reading. `duration_cast` truncates. -/
def SteadyClock.given (clock : SteadyClock) (timeoutMS : TimeoutMS) (cast : Cast) (n : ℕ) : ℤ :=
  cast.apply ((clock.latestRoutineExitTimeStamp timeoutMS - clock.now n).tdiv 1000000)

/-- The checks before and after the feeder's part, with the waits they start. -/
def resetWaits : Kind → List (Option Cast)
  | .GDB => [some .int]
  | .DynRioMulti _ => [none, some .uint, none]

def dumpWaits : Kind → List (Option Cast)
  | .GDB => [some .int]
  | .DynRioMulti _ => [some .uint, none, none, none]

/-- The waits up to the first check that fails. -/
def startedWaits : List (Option Cast) → List (Bool × String) → List Cast
  | wait :: waits, (ok, _) :: checks =>
    wait.toList ++ if ok then startedWaits waits checks else []
  | _, _ => []

/-- The waits of `runSingleTestcase`, in the order in which it starts them. -/
def runSingleTestcaseWaits (kind : Kind) (s : TestExecutor) (testcaseId : FluffiTestcaseID)
    (covMode : CoverageMode) (run : SingleRun) : List Cast :=
  let reset := if covMode = .NONE then [] else resetChecks kind run
  let dump := if covMode = .NONE then [] else dumpChecks kind run
  startedWaits (resetWaits kind) reset ++
    if firstFailure reset ≠ none ∨ run.sent = false then []
    else
      let feeders := (s.feeders.moves run.before).sendMessageToClient
        (.FUZZ_FILENAME (s.sendings + 1) testcaseId)
      let response := (feeders.moves run.moves).waitForNewMessageToServer run.wait
      .unsignedLong ::
        if response.1 = SHARED_MEM_MESSAGE_FUZZ_DONE then startedWaits (dumpWaits kind) dump else []

/-- The wait of `FluffiTestExecutor::initializeFeeder`. -/
def initializeFeederWaits (start : FeederStart) : List Cast :=
  if !start.processInitialized || !start.processRun || !start.sent then [] else [.unsignedLong]

/-- Every wait is given at most the configured timeout. -/
def GivenAtMost (timeoutMS : TimeoutMS) (clock : SteadyClock) (waits : List Cast) : Prop :=
  ∀ n (cast : Cast), waits[n]? = some cast → clock.given timeoutMS cast (n + 1) ≤ timeoutMS.val

/-! ### The wait for a message -/

/-- `tv_sec` and `tv_nsec` -/
def timespec (timeoutMilliseconds : UInt64) : ℕ × ℕ :=
  ((timeoutMilliseconds / 1000).toNat, (timeoutMilliseconds % 1000 * 1000000).toNat)

/-- The nanoseconds that `waitForNewMessageToClient` or `waitForNewMessageToServer` spends in
`pselect`. `ends` is when a descriptor can be read, or an error that is no signal occurs. -/
def waitForNewMessage (timeoutMilliseconds : UInt64) (ends : Option ℕ) (signals : List ℕ) : ℕ :=
  let timeout := timespec timeoutMilliseconds
  restarted (timeout.1 * 1000000000 + timeout.2) ends signals

/-! ### Deadlines that have passed -/

/-- The full milliseconds for which the deadline has passed. -/
def SteadyClock.overdueMS (clock : SteadyClock) (timeoutMS : TimeoutMS) (n : ℕ) : ℕ :=
  ((clock.now n - clock.latestRoutineExitTimeStamp timeoutMS) / 1000000).toNat

/-- The deadline has not passed by a millisecond, or the cast makes the time that has passed a
short timeout again. -/
def Cast.Harmless (timeoutMS : TimeoutMS) (overdueMS : ℕ) : Cast → Prop
  | .unsignedLong => overdueMS = 0
  | .uint => overdueMS % 2 ^ 32 = 0 ∨ 2 ^ 32 - timeoutMS.val ≤ overdueMS % 2 ^ 32
  | .int => overdueMS % 2 ^ 32 ≤ 2 ^ 31 ∨ 2 ^ 32 - timeoutMS.val ≤ overdueMS % 2 ^ 32

def StartedInTime (timeoutMS : TimeoutMS) (clock : SteadyClock) (waits : List Cast) : Prop :=
  ∀ n (cast : Cast), waits[n]? = some cast →
    cast.Harmless timeoutMS (clock.overdueMS timeoutMS (n + 1))

variable {timeoutMS : TimeoutMS} {clock : SteadyClock}

/-- What is left of the time: at most the timeout, or nothing but the time that has passed. -/
theorem remaining_cases (timeoutMS : TimeoutMS) (clock : SteadyClock) (n : ℕ) :
    (clock.overdueMS timeoutMS n = 0 ∧
      0 ≤ (clock.latestRoutineExitTimeStamp timeoutMS - clock.now n).tdiv 1000000 ∧
      (clock.latestRoutineExitTimeStamp timeoutMS - clock.now n).tdiv 1000000 ≤ timeoutMS.val) ∨
    (0 < clock.overdueMS timeoutMS n ∧ clock.overdueMS timeoutMS n < 2 ^ 64 - timeoutMS.val ∧
      (clock.latestRoutineExitTimeStamp timeoutMS - clock.now n).tdiv 1000000 =
        -(clock.overdueMS timeoutMS n : ℤ)) := by
  have hentry : clock.now 0 ≤ clock.now n := clock.mono (Nat.zero_le n)
  have hfits := clock.fits 0
  have hfits' := clock.fits n
  have ht := timeoutMS.isLt
  unfold SteadyClock.overdueMS SteadyClock.latestRoutineExitTimeStamp
  generalize clock.now 0 = entry at *
  generalize clock.now n = now at *
  generalize timeoutMS.val = t at *
  rcases le_or_gt now (entry + t * 1000000) with hleft | hpassed
  · left
    rw [Int.tdiv_eq_ediv_of_nonneg (by omega)]
    omega
  · have hneg : (entry + t * 1000000 - now).tdiv 1000000 =
        -((now - (entry + t * 1000000)) / 1000000) := by
      rw [← neg_sub, Int.neg_tdiv, Int.tdiv_eq_ediv_of_nonneg (by omega)]
    rw [hneg]
    omega

/-- A wait is given at most the timeout exactly if it is started in time, or the cast makes up
for the delay. -/
theorem given_le_iff (cast : Cast) (n : ℕ) :
    clock.given timeoutMS cast n ≤ timeoutMS.val ↔
      cast.Harmless timeoutMS (clock.overdueMS timeoutMS n) := by
  have ht : timeoutMS.val < 2 ^ 31 := timeoutMS.isLt
  unfold SteadyClock.given
  rcases remaining_cases timeoutMS clock n with ⟨hzero, hnonneg, hle⟩ | ⟨hpos, hlt, hpassed⟩
  · rw [hzero]
    cases cast with
    | unsignedLong =>
      rw [Cast.apply, toUnsigned_of_lt hnonneg (by omega)]
      exact iff_of_true hle rfl
    | uint =>
      rw [Cast.apply, toUnsigned_of_lt hnonneg (by omega)]
      exact iff_of_true hle (.inl rfl)
    | int =>
      rw [Cast.apply, toSigned_of_lt hnonneg (by omega)]
      exact iff_of_true hle (.inl (Nat.zero_le _))
  · rw [hpassed]
    cases cast with
    | unsignedLong =>
      rw [Cast.apply, toUnsigned_neg_le_iff (by omega), Cast.Harmless]
      omega
    | uint => exact toUnsigned_neg_le_iff (by omega)
    | int => exact toSigned_neg_le_iff ht

theorem givenAtMost_iff (waits : List Cast) :
    GivenAtMost timeoutMS clock waits ↔ StartedInTime timeoutMS clock waits := by
  simp only [GivenAtMost, StartedInTime, given_le_iff]

theorem timespec_eq (timeoutMilliseconds : UInt64) :
    (timespec timeoutMilliseconds).1 * 1000000000 + (timespec timeoutMilliseconds).2 =
      timeoutMilliseconds.toNat * 1000000 := by
  have hsec : (timeoutMilliseconds / 1000).toNat = timeoutMilliseconds.toNat / 1000 := by
    rw [UInt64.toNat_div]
    rfl
  have hnsec : (timeoutMilliseconds % 1000 * 1000000).toNat =
      timeoutMilliseconds.toNat % 1000 * 1000000 := by
    have hlt : timeoutMilliseconds.toNat % 1000 < 1000 := Nat.mod_lt _ (by decide)
    have hthousand : (1000 : UInt64).toNat = 1000 := rfl
    have hmillion : (1000000 : UInt64).toNat = 1000000 := rfl
    rw [UInt64.toNat_mul, UInt64.toNat_mod, hthousand, hmillion]
    omega
  rw [timespec, hsec, hnsec]
  omega

/-- An answer of the feeder is taken by a wait that was started. -/
theorem waited_for_answer {kind : Kind} {s : TestExecutor} {testcaseId : FluffiTestcaseID}
    {exResult : DebugExecutionOutput} {covMode : CoverageMode} {run : SingleRun} {answer : Answer}
    (h : (runSingleTestcase kind s testcaseId exResult covMode run).2.1 = some answer) :
    .unsignedLong ∈ runSingleTestcaseWaits kind s testcaseId covMode run := by
  unfold runSingleTestcase at h
  unfold runSingleTestcaseWaits
  simp only at h ⊢
  generalize (if covMode = .NONE then [] else resetChecks kind run) = reset at h ⊢
  cases hreset : firstFailure reset with
  | some description =>
    rw [hreset] at h
    cases h
  | none =>
    rw [hreset] at h
    cases hsent : run.sent with
    | false =>
      rw [hsent] at h
      cases h
    | true => simp

/-- The waits of the executors are given at most the timeout exactly if each is started before
the deadline has passed by a millisecond, or its cast makes up for that. A wait for a message
takes at most its timeout exactly if it ends by then, or the first signal that comes while it
waits does not come before. -/
theorem waits_bounded_iff (timeoutMS : TimeoutMS) (clock : SteadyClock) (kind : Kind)
    (s : TestExecutor) (testcaseId : FluffiTestcaseID) (covMode : CoverageMode) (run : SingleRun)
    (start : FeederStart) (timeoutMilliseconds : UInt64) (ends : Option ℕ) (signals : List ℕ) :
    (GivenAtMost timeoutMS clock (runSingleTestcaseWaits kind s testcaseId covMode run) ↔
      StartedInTime timeoutMS clock (runSingleTestcaseWaits kind s testcaseId covMode run)) ∧
    (GivenAtMost timeoutMS clock (initializeFeederWaits start) ↔
      StartedInTime timeoutMS clock (initializeFeederWaits start)) ∧
    (waitForNewMessage timeoutMilliseconds ends signals ≤ timeoutMilliseconds.toNat * 1000000 ↔
      (∃ e, ends = some e ∧ e ≤ timeoutMilliseconds.toNat * 1000000) ∨
        ∀ signal, (signals.dropWhile (· == 0)).head? = some signal →
          timeoutMilliseconds.toNat * 1000000 ≤ signal) := by
  refine ⟨givenAtMost_iff _, givenAtMost_iff _, ?_⟩
  rw [waitForNewMessage]
  simp only [timespec_eq]
  exact restarted_le_iff

/-! ### A second that passes -/

/-- A millisecond more than a second passes before the first wait. -/
def lateClock : SteadyClock where
  now n := if n = 0 then 0 else 1001000000
  mono := by
    intro m n hmn
    by_cases hm : m = 0
    · by_cases hn : n = 0 <;> simp [hm, hn]
    · have hn : n ≠ 0 := by omega
      simp [hm, hn]
  fits := by
    intro n
    split <;> constructor <;> decide

def quietRun : SingleRun where
  coverageResetted := true
  coverageDumped := true
  nextDrcovFileDeleted := true
  nudgeReset := 0
  resetResponse := 'R'
  resetInTime := true
  nudgeDump := 0
  dumpResponse := 'D'
  dumpInTime := true
  drcovLogFile := "drcov.log"
  drcovOutputSize := 1
  m_targetProcessID := 1
  before := []
  sent := true
  moves := []
  wait := ⟨[], none⟩

/-- With a timeout of a second, the feeder is waited for almost for ever, and a signal in the
middle of a wait makes it half a second longer. -/
theorem late_waits_exceed :
    runSingleTestcaseWaits .GDB (.new 0) ⟨⟨"", "tg"⟩, 1⟩ .NONE quietRun = [.unsignedLong] ∧
    lateClock.given 1000 .unsignedLong 1 = 2 ^ 64 - 1 ∧
    ¬ GivenAtMost 1000 lateClock
      (runSingleTestcaseWaits .GDB (.new 0) ⟨⟨"", "tg"⟩, 1⟩ .NONE quietRun) ∧
    waitForNewMessage 1000 none [500000000] = 1500 * 1000000 := by
  have hwaits : runSingleTestcaseWaits .GDB (.new 0) ⟨⟨"", "tg"⟩, 1⟩ .NONE quietRun =
      [.unsignedLong] := rfl
  have hgiven : lateClock.given 1000 .unsignedLong 1 = 2 ^ 64 - 1 := by decide
  refine ⟨hwaits, hgiven, fun hall => ?_, by decide⟩
  rw [hwaits] at hall
  have hle := hall 0 .unsignedLong rfl
  rw [hgiven] at hle
  exact absurd hle (by decide)

end Fluffi.Runner
