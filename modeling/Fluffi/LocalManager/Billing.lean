import Fluffi.LocalManager.CompletedLog
import Fluffi.Systems.Table

/-! How many testcases were run. Completed testcases have a row for a few minutes;
then the cleanup worker removes the row and adds the number of removed rows to a
counter in the billing table. The two are separate statements. -/

namespace Fluffi.LocalManager

open Shared Systems

/-! ### Tables and statements -/

/-- The two tables. `billing` is the amount of `RunTestcasesNoLongerListed`, where it has
a row, and `inserted` counts the rows that were ever inserted. -/
structure BillingTables where
  completed_testcases : List CompletedTestcase
  billing : Option ℕ
  now : ℕ
  inserted : ℕ
  deriving DecidableEq, Repr

namespace BillingTables

/-- `TimeOfCompletion < (CURRENT_TIMESTAMP() - INTERVAL ? SECOND)` -/
def isOlderThan (olderThanInSeconds now : ℕ) (row : CompletedTestcase) : Bool :=
  row.TimeOfCompletion + olderThanInSeconds < now

/-- `addEntriesToCompletedTestcasesTable` -/
def addEntriesToCompletedTestcasesTable (s : BillingTables) (testcaseIDs : List TestcaseKey)
    (execution : Execution) : BillingTables :=
  if execution = .refused then s
  else { s with
    completed_testcases := s.completed_testcases ++ testcaseIDs.map fun tcID => ⟨tcID, s.now⟩
    inserted := s.inserted + testcaseIDs.length }

/-- `initializeBillingTable`, by `INSERT IGNORE` -/
def initializeBillingTable (s : BillingTables) (execution : Execution) : BillingTables :=
  if execution = .refused then s else { s with billing := some (s.billing.getD 0) }

/-- `cleanCompletedTestcasesTableOlderThanXSec`, with the number it returns. -/
def cleanCompletedTestcasesTableOlderThanXSec (s : BillingTables) (olderThanInSeconds : ℕ)
    (execution : Execution) : BillingTables × ℕ :=
  let older := s.completed_testcases.filter (isOlderThan olderThanInSeconds s.now)
  let rest := s.completed_testcases.filter (!isOlderThan olderThanInSeconds s.now ·)
  match execution with
  | .executed => ({ s with completed_testcases := rest }, older.length)
  | .refused => (s, 0)
  | .unanswered => ({ s with completed_testcases := rest }, 0)

/-- `addRunTestcasesNoLongerListed`. The amount is a `BIGINT`, and the statement is an
error where it would overflow. -/
def addRunTestcasesNoLongerListed (s : BillingTables) (numberOfTestcasesNoLongerListed : UInt32)
    (execution : Execution) : BillingTables :=
  match s.billing with
  | some amount =>
    if execution = .refused ∨ 2 ^ 63 ≤ amount + numberOfTestcasesNoLongerListed.toNat then s
    else { s with billing := some (amount + numberOfTestcasesNoLongerListed.toNat) }
  | none => s

/-- `DBCleanupWorker::updateRunTestcasesNoLongerShowing` -/
def updateRunTestcasesNoLongerShowing (s : BillingTables) (delete update : Execution) :
    BillingTables :=
  let (s, deletedRows) := s.cleanCompletedTestcasesTableOlderThanXSec (3 * 60) delete
  s.addRunTestcasesNoLongerListed (UInt32.ofNat deletedRows) update

/-- The number of testcases that were run, as both tables give it. -/
def runTestcases (s : BillingTables) : ℕ := s.completed_testcases.length + s.billing.getD 0

end BillingTables

/-! ### Runs -/

inductive BillingEvent
  | clock (now : ℕ)
  | start (execution : Execution)
  | insert (testcaseIDs : List TestcaseKey) (execution : Execution)
  | round (delete update : Execution)
  deriving DecidableEq, Repr

namespace BillingTables

def next (s : BillingTables) : BillingEvent → Option BillingTables
  | .clock now => some { s with now := now }
  | .start execution => some (s.initializeBillingTable execution)
  | .insert testcaseIDs execution =>
    some (s.addEntriesToCompletedTestcasesTable testcaseIDs execution)
  | .round delete update => some (s.updateRunTestcasesNoLongerShowing delete update)

def created : BillingTables := ⟨[], none, 0, 0⟩

/-- The rows that a round can remove. -/
def outdated (s : BillingTables) : List CompletedTestcase :=
  s.completed_testcases.filter (isOlderThan (3 * 60) s.now)

/-- The number can be added to the amount. -/
def Adds (s : BillingTables) (n : ℕ) (update : Execution) : Prop :=
  update ≠ .refused ∧ ∃ amount, s.billing = some amount ∧ amount + n < 2 ^ 63

/-- Where rows are removed, their number reaches the billing table unchanged. -/
def Accounts (s : BillingTables) : BillingEvent → Prop
  | .round delete update =>
    s.outdated = [] ∨ delete = .refused ∨
      (delete = .executed ∧ s.outdated.length < 2 ^ 32 ∧ s.Adds s.outdated.length update)
  | _ => True

/-! ### One step -/

theorem addRunTestcasesNoLongerListed_frame (s : BillingTables) (n : UInt32) (update : Execution) :
    (s.addRunTestcasesNoLongerListed n update).completed_testcases = s.completed_testcases ∧
      (s.addRunTestcasesNoLongerListed n update).inserted = s.inserted := by
  unfold addRunTestcasesNoLongerListed
  split
  · split
    · exact ⟨rfl, rfl⟩
    · exact ⟨rfl, rfl⟩
  · exact ⟨rfl, rfl⟩

/-- The amount grows by the number where the statement has its effect. -/
theorem addRunTestcasesNoLongerListed_amount (s : BillingTables) (n : UInt32)
    (update : Execution) :
    (s.Adds n.toNat update ∧ (s.addRunTestcasesNoLongerListed n update).billing.getD 0 =
        s.billing.getD 0 + n.toNat) ∨
      (¬ s.Adds n.toNat update ∧
        (s.addRunTestcasesNoLongerListed n update).billing.getD 0 = s.billing.getD 0) := by
  unfold addRunTestcasesNoLongerListed Adds
  cases hbilling : s.billing with
  | none => simp [hbilling]
  | some amount =>
    dsimp only
    split_ifs with h
    · refine .inr ⟨?_, by rw [hbilling]⟩
      rintro ⟨hupdate, _, ⟨⟩, hlt⟩
      rcases h with h | h
      · exact hupdate h
      · omega
    · obtain ⟨hupdate, hlt⟩ := not_or.mp h
      exact .inl ⟨⟨hupdate, amount, rfl, by omega⟩, rfl⟩

theorem addRunTestcasesNoLongerListed_runTestcases (s : BillingTables) (n : UInt32)
    (update : Execution) :
    (s.Adds n.toNat update ∧
        (s.addRunTestcasesNoLongerListed n update).runTestcases = s.runTestcases + n.toNat) ∨
      (¬ s.Adds n.toNat update ∧
        (s.addRunTestcasesNoLongerListed n update).runTestcases = s.runTestcases) := by
  obtain ⟨hrows, -⟩ := s.addRunTestcasesNoLongerListed_frame n update
  unfold runTestcases
  rw [hrows]
  rcases s.addRunTestcasesNoLongerListed_amount n update with ⟨hadds, hamount⟩ | ⟨hnot, hamount⟩
  · exact .inl ⟨hadds, by rw [hamount, Nat.add_assoc]⟩
  · exact .inr ⟨hnot, by rw [hamount]⟩

/-- A number of zero changes nothing, whether or not the statement has its effect. -/
theorem addRunTestcasesNoLongerListed_zero (s : BillingTables) (update : Execution) :
    (s.addRunTestcasesNoLongerListed 0 update).runTestcases = s.runTestcases := by
  rcases s.addRunTestcasesNoLongerListed_runTestcases 0 update with ⟨-, h⟩ | ⟨-, h⟩
  · exact h
  · exact h

/-- The tables after the first statement of a round. -/
def withoutOutdated (s : BillingTables) : BillingTables :=
  { s with completed_testcases := s.completed_testcases.filter (!isOlderThan (3 * 60) s.now ·) }

theorem withoutOutdated_runTestcases (s : BillingTables) :
    s.withoutOutdated.runTestcases + s.outdated.length = s.runTestcases := by
  have hlength : s.withoutOutdated.completed_testcases.length + s.outdated.length =
      s.completed_testcases.length := by
    have h := List.length_eq_length_filter_add (l := s.completed_testcases)
      (isOlderThan (3 * 60) s.now)
    unfold withoutOutdated outdated
    dsimp only
    omega
  have hbilling : s.withoutOutdated.billing = s.billing := rfl
  unfold runTestcases
  rw [hbilling]
  omega

/-- The cast keeps the number of removed rows exactly below 2 ^ 32. -/
theorem round_executed_runTestcases (s : BillingTables) (update : Execution) :
    (s.updateRunTestcasesNoLongerShowing .executed update).runTestcases ≤ s.runTestcases ∧
      ((s.updateRunTestcasesNoLongerShowing .executed update).runTestcases = s.runTestcases ↔
        s.outdated.length = 0 ∨
          (s.outdated.length < 2 ^ 32 ∧ s.Adds s.outdated.length update)) := by
  have ht : s.updateRunTestcasesNoLongerShowing .executed update =
      s.withoutOutdated.addRunTestcasesNoLongerListed (UInt32.ofNat s.outdated.length) update := rfl
  have hcast : (UInt32.ofNat s.outdated.length).toNat = s.outdated.length % 2 ^ 32 := rfl
  have hadds (n : ℕ) : s.withoutOutdated.Adds n update ↔ s.Adds n update := Iff.rfl
  have hrest := s.withoutOutdated_runTestcases
  have hadded := s.withoutOutdated.addRunTestcasesNoLongerListed_runTestcases
    (UInt32.ofNat s.outdated.length) update
  rw [← ht, hcast, hadds] at hadded
  have hmod := Nat.mod_le s.outdated.length (2 ^ 32)
  refine ⟨by omega, ?_⟩
  by_cases hsmall : s.outdated.length < 2 ^ 32
  · rw [Nat.mod_eq_of_lt hsmall] at hadded
    rcases hadded with ⟨hadds, hadded⟩ | ⟨hnot, hkept⟩
    · simp only [hsmall, hadds, and_self, or_true, iff_true]
      omega
    · simp only [hnot, and_false, or_false]
      omega
  · have hlt := Nat.mod_lt s.outdated.length (by omega : 2 ^ 32 > 0)
    simp only [hsmall, false_and, or_false]
    omega

/-- A round never counts more than it removes, and as much exactly where it accounts. -/
theorem round_runTestcases (s : BillingTables) (delete update : Execution) :
    (s.updateRunTestcasesNoLongerShowing delete update).inserted = s.inserted ∧
      (s.updateRunTestcasesNoLongerShowing delete update).runTestcases ≤ s.runTestcases ∧
      ((s.updateRunTestcasesNoLongerShowing delete update).runTestcases = s.runTestcases ↔
        s.Accounts (.round delete update)) := by
  have hempty : s.outdated = [] ↔ s.outdated.length = 0 := List.length_eq_zero_iff.symm
  cases delete with
  | refused =>
    have hkept : (s.updateRunTestcasesNoLongerShowing .refused update).runTestcases =
        s.runTestcases := s.addRunTestcasesNoLongerListed_zero update
    exact ⟨(s.addRunTestcasesNoLongerListed_frame _ update).2, hkept.le, by simp [hkept, Accounts]⟩
  | unanswered =>
    have hkept : (s.updateRunTestcasesNoLongerShowing .unanswered update).runTestcases =
        s.withoutOutdated.runTestcases :=
      s.withoutOutdated.addRunTestcasesNoLongerListed_zero update
    have hrest := s.withoutOutdated_runTestcases
    refine ⟨(s.withoutOutdated.addRunTestcasesNoLongerListed_frame _ update).2, by omega, ?_⟩
    simp only [Accounts, hempty, reduceCtorEq, false_and, or_false]
    omega
  | executed =>
    obtain ⟨hle, hiff⟩ := s.round_executed_runTestcases update
    refine ⟨(s.withoutOutdated.addRunTestcasesNoLongerListed_frame _ update).2, hle, ?_⟩
    simp only [hiff, Accounts, hempty, reduceCtorEq, false_or, true_and]

/-- No step gives a greater number of testcases than it inserts, and a step loses none
exactly where it accounts for them. -/
theorem next_runTestcases {s t : BillingTables} {e : BillingEvent} (h : next s e = some t) :
    t.runTestcases + s.inserted ≤ s.runTestcases + t.inserted ∧
      (t.runTestcases + s.inserted = s.runTestcases + t.inserted ↔ s.Accounts e) := by
  cases e with
  | clock now =>
    obtain rfl := Option.some.inj h
    simp [runTestcases, Accounts]
  | start execution =>
    obtain rfl := Option.some.inj h
    unfold initializeBillingTable runTestcases
    split_ifs
    · simp [Accounts]
    · simp [Accounts]
  | insert testcaseIDs execution =>
    obtain rfl := Option.some.inj h
    unfold addEntriesToCompletedTestcasesTable runTestcases
    split_ifs
    · simp [Accounts]
    · simp only [Accounts, List.length_append, List.length_map, iff_true]
      omega
  | round delete update =>
    obtain rfl := Option.some.inj h
    obtain ⟨hinserted, hle, hiff⟩ := s.round_runTestcases delete update
    rw [hinserted, ← hiff]
    omega

/-! ### Whole runs -/

/-- Both tables together give the number of rows ever inserted exactly where every round of
the run accounted for what it removed. -/
theorem runTestcases_eq_inserted_iff {tr : List (BillingTables × BillingEvent)}
    {s : BillingTables} (hr : Run next created tr s) :
    s.runTestcases = s.inserted ↔ ∀ p ∈ tr, p.1.Accounts p.2 := by
  have hinv := hr.history (G := fun _ _ => True)
    (I := fun tr s => s.runTestcases ≤ s.inserted ∧
      (s.runTestcases = s.inserted ↔ ∀ p ∈ tr, p.1.Accounts p.2))
    (fun _ _ => trivial) ⟨le_rfl, by simp [runTestcases, created]⟩ ?_
  · exact hinv.2
  · intro tr s e t ⟨hle, hiff⟩ _ hs
    obtain ⟨hstep, haccounts⟩ := next_runTestcases hs
    refine ⟨by omega, ?_⟩
    rw [List.forall_mem_append, List.forall_mem_singleton, ← hiff, ← haccounts]
    omega

/-- A row is removed after more than three minutes and counted. -/
theorem runTestcases_counted :
    ∃ tr s, Run next created tr s ∧ s.completed_testcases = [] ∧ s.billing = some 1 ∧
      (s.runTestcases = s.inserted ↔ ∀ p ∈ tr, p.1.Accounts p.2) := by
  have hrun := run_of_exec (rfl : exec next created [.start .executed,
    .insert [⟨"g", 0⟩] .executed, .clock 181, .round .executed .executed] = some (_, _))
  exact ⟨_, _, hrun, rfl, rfl, runTestcases_eq_inserted_iff hrun⟩

/-- The row is removed and the update is refused: no table shows that the testcase was run. -/
theorem runTestcases_lost :
    ∃ tr s, Run next created tr s ∧ s.inserted = 1 ∧ s.runTestcases = 0 := by
  have hrun := run_of_exec (rfl : exec next created [.start .executed,
    .insert [⟨"g", 0⟩] .executed, .clock 181, .round .executed .refused] = some (_, _))
  exact ⟨_, _, hrun, rfl, rfl⟩

end BillingTables

end Fluffi.LocalManager
