import Fluffi.Generator.Producers
import Fluffi.Shared.TestcasePaths
import Fluffi.Systems.Renames
import Mathlib.Data.Finset.Basic

/-! The mutators that run an external tool. It writes its mutations to numbered files in the
testcase directory, whose names are the same in every call, and `batchMutate` renames them. What
a call leaves there is still there in the next one. -/

namespace Fluffi.Generator

open Shared Systems

inductive ToolMutator where
  | RadamsaMutator
  | OedipusMutator
  deriving DecidableEq, Repr

def ToolMutator.outputPrefix : ToolMutator → String
  | .RadamsaMutator => "radamsa_"
  | .OedipusMutator => "Oedipus_"

/-- `currentRadamsaFile` and `currentOedipusFile` -/
def ToolMutator.outputFile (mutator : ToolMutator) (m_testcaseDir : String) (i : ℕ) : String :=
  m_testcaseDir ++ pathSeperator ++ mutator.outputPrefix ++ toString i

/-- A call of `batchMutate`, and what happens in it: if the tool is started at all (there is a
parent, and `OedipusMutator` has credentials for the database), the numbers of the files it
writes, if it ends in time and without an error, and the files that can be renamed. -/
structure BatchCall where
  numToGenerate : UInt32
  parentID : FluffiTestcaseID
  starts : Bool
  written : Finset ℕ
  completes : Bool
  renames : ℕ → Bool

/-- The files, each with the number of the call whose tool wrote it, and the calls so far. -/
structure ToolState where
  files : String → Option ℕ
  s_numMutations : UInt64
  calls : ℕ

section Mutator

variable (mutator : ToolMutator) (own : FluffiServiceDescriptor) (m_testcaseDir : String)

/-- The files when the tool is done. -/
def BatchCall.filesWritten (call : BatchCall) (s : ToolState) (path : String) : Option ℕ :=
  if ∃ i ∈ call.written, path = mutator.outputFile m_testcaseDir i then some s.calls
  else s.files path

/-- The loop over the files from number `i` on, of which `count` are wanted. -/
def takeChildren (call : BatchCall) :
    ℕ → ℕ → ToolState → List NewTestcase × ToolState
  | 0, _, s => ([], s)
  | count + 1, i, s =>
    let currentFile := mutator.outputFile m_testcaseDir i
    let (testcaseID, s_numMutations) := genNewLocalFluffiTestcaseID own s.s_numMutations
    let pathAndFilename := generateTestcasePathAndFilename testcaseID m_testcaseDir
    if (s.files currentFile).isNone then ([], { s with s_numMutations })
    else if call.renames i then
      let (generatedMutations, s') := takeChildren call count (i + 1)
        { s with files := rename s.files currentFile pathAndFilename, s_numMutations }
      (⟨testcaseID, call.parentID, pathAndFilename, false⟩ :: generatedMutations, s')
    else takeChildren call count (i + 1) { s with s_numMutations }

/-- `RadamsaMutator::batchMutate` and `OedipusMutator::batchMutate`; `none` where they throw. -/
def BatchCall.batchMutate (call : BatchCall) (s : ToolState) :
    Option (List NewTestcase) × ToolState :=
  if !call.starts then (none, { s with calls := s.calls + 1 })
  else
    let s := { s with files := call.filesWritten mutator m_testcaseDir s }
    if !call.completes then (none, { s with calls := s.calls + 1 })
    else
      let (generatedMutations, s) :=
        takeChildren mutator own m_testcaseDir call call.numToGenerate.toNat 1 s
      (some generatedMutations, { s with calls := s.calls + 1 })

/-- The mutator before its first call, and after some calls. -/
def afterBatches (calls : List BatchCall) : ToolState :=
  calls.foldl (fun s call => (call.batchMutate mutator own m_testcaseDir s).2)
    ⟨fun _ => none, 0, 0⟩

/-- All children that a call returns are files that its own tool wrote. -/
def BatchCall.OwnChildren (call : BatchCall) (s : ToolState) : Prop :=
  ∀ generatedMutations, (call.batchMutate mutator own m_testcaseDir s).1 = some generatedMutations →
    ∀ child ∈ generatedMutations, child.parentId = call.parentID ∧
      (call.batchMutate mutator own m_testcaseDir s).2.files child.pathAndFileName = some s.calls

/-- No file of an earlier call is where the loop takes it for one of its own: it comes to the
file, as there is one with each number before, can rename it, and the tool did not write it. -/
def BatchCall.NoLeftover (call : BatchCall) (s : ToolState) : Prop :=
  call.starts → call.completes → ∀ i, 1 ≤ i → i ≤ call.numToGenerate.toNat →
    i ∉ call.written → (s.files (mutator.outputFile m_testcaseDir i)).isSome → call.renames i →
      ∃ j, 1 ≤ j ∧ j < i ∧ j ∉ call.written ∧ (s.files (mutator.outputFile m_testcaseDir j)).isNone

/-! ### Names -/

theorem toList_outputFile (i : ℕ) : (mutator.outputFile m_testcaseDir i).toList =
    m_testcaseDir.toList ++ '/' :: (mutator.outputPrefix.toList ++ Nat.toDigits 10 i) := by
  simp [ToolMutator.outputFile, pathSeperator, String.toList_append]

theorem outputFile_inj {i j : ℕ}
    (h : mutator.outputFile m_testcaseDir i = mutator.outputFile m_testcaseDir j) : i = j := by
  have hlist := congrArg String.toList h
  rw [toList_outputFile, toList_outputFile, List.append_cancel_left_eq, List.cons.injEq,
    List.append_cancel_left_eq] at hlist
  exact toDigits_inj hlist.2

/-- There is a dash in the name of a testcase file, and none in that of an output. -/
theorem outputFile_ne (i : ℕ) (testcaseID : FluffiTestcaseID) :
    mutator.outputFile m_testcaseDir i ≠
      generateTestcasePathAndFilename testcaseID m_testcaseDir := by
  intro h
  have hlist := congrArg String.toList h
  rw [toList_outputFile, toList_testcasePath, List.append_cancel_left_eq,
    List.cons.injEq] at hlist
  have hdash : '-' ∉ mutator.outputPrefix.toList := by cases mutator <;> decide
  have hmem : '-' ∈ mutator.outputPrefix.toList ++ Nat.toDigits 10 i := by
    rw [hlist.2]
    simp
  rcases List.mem_append.mp hmem with hprefix | hdigits
  · exact hdash hprefix
  · exact dash_notMem_toDigits i hdigits

/-! ### The loop -/

variable {mutator own m_testcaseDir} {call : BatchCall}

/-- An ID is used up. -/
def ToolState.skipped (s : ToolState) : ToolState :=
  ⟨s.files, s.s_numMutations + 1, s.calls⟩

variable (mutator own m_testcaseDir) in
/-- The path of the next child. -/
def ToolState.nextPath (s : ToolState) : String :=
  generateTestcasePathAndFilename ⟨own, s.s_numMutations⟩ m_testcaseDir

variable (mutator own m_testcaseDir) in
/-- The file of a number has become a child. -/
def ToolState.placed (s : ToolState) (i : ℕ) : ToolState :=
  ⟨rename s.files (mutator.outputFile m_testcaseDir i) (s.nextPath own m_testcaseDir),
    s.s_numMutations + 1, s.calls⟩

theorem takeChildren_succ (count i : ℕ) (s : ToolState) :
    takeChildren mutator own m_testcaseDir call (count + 1) i s =
      if (s.files (mutator.outputFile m_testcaseDir i)).isNone then ([], s.skipped)
      else if call.renames i then
        (⟨⟨own, s.s_numMutations⟩, call.parentID, s.nextPath own m_testcaseDir, false⟩ ::
            (takeChildren mutator own m_testcaseDir call count (i + 1)
              (s.placed mutator own m_testcaseDir i)).1,
          (takeChildren mutator own m_testcaseDir call count (i + 1)
            (s.placed mutator own m_testcaseDir i)).2)
      else takeChildren mutator own m_testcaseDir call count (i + 1) s.skipped := rfl

/-- The paths that the loop can write to. -/
theorem takeChildren_files {count i : ℕ} {s : ToolState} {path : String}
    (houtput : ∀ j, i ≤ j → path ≠ mutator.outputFile m_testcaseDir j)
    (htestcase : ∀ k < count, path ≠ generateTestcasePathAndFilename
      ⟨own, s.s_numMutations + UInt64.ofNat k⟩ m_testcaseDir) :
    (takeChildren mutator own m_testcaseDir call count i s).2.files path = s.files path := by
  induction count generalizing i s with
  | zero => rfl
  | succ count ih =>
    have hlater : ∀ k < count, path ≠ generateTestcasePathAndFilename
        ⟨own, s.s_numMutations + 1 + UInt64.ofNat k⟩ m_testcaseDir := by
      intro k hk
      have := htestcase (k + 1) (by omega)
      rwa [UInt64.ofNat_add, add_comm (UInt64.ofNat k), ← add_assoc] at this
    have houtput' : ∀ j, i + 1 ≤ j → path ≠ mutator.outputFile m_testcaseDir j :=
      fun j hj => houtput j (by omega)
    have hfirst := htestcase 0 (by omega)
    have hzero : UInt64.ofNat 0 = 0 := rfl
    rw [hzero, add_zero] at hfirst
    rw [takeChildren_succ]
    split
    · rfl
    · split
      · have hfiles := ih (s := s.placed mutator own m_testcaseDir i) houtput' hlater
        rw [hfiles]
        exact rename_of_ne (houtput i le_rfl) hfirst s.files
      · exact ih (s := s.skipped) houtput' hlater

/-- The outputs that the loop comes to and can rename, from number `i` on, have one origin. -/
def OwnAhead (renames : ℕ → Bool) (origin count i : ℕ) (outputs : ℕ → Option ℕ) : Prop :=
  ∀ k < count, (∀ l ≤ k, (outputs (i + l)).isSome) → renames (i + k) →
    outputs (i + k) = some origin

theorem ownAhead_succ {renames : ℕ → Bool} {origin count i : ℕ} {outputs : ℕ → Option ℕ} :
    OwnAhead renames origin (count + 1) i outputs ↔ ((outputs i).isSome →
      (renames i → outputs i = some origin) ∧ OwnAhead renames origin count (i + 1) outputs) := by
  constructor
  · intro h hsome
    refine ⟨fun hrenames => h 0 (by omega) (fun l hl => ?_) hrenames, fun k hk hall hrenames => ?_⟩
    · rwa [Nat.le_zero.mp hl]
    · rw [Nat.add_right_comm] at hrenames ⊢
      refine h (k + 1) (by omega) (fun l hl => ?_) hrenames
      cases l with
      | zero => exact hsome
      | succ l =>
        have := hall l (by omega)
        rwa [Nat.add_right_comm] at this
  · intro h k hk hall hrenames
    obtain ⟨hfirst, hlater⟩ := h (hall 0 (by omega))
    cases k with
    | zero => exact hfirst hrenames
    | succ k =>
      have hshift (l : ℕ) : i + (l + 1) = i + 1 + l := by omega
      rw [hshift] at hrenames ⊢
      refine hlater k (by omega) (fun l hl => ?_) hrenames
      have := hall (l + 1) (by omega)
      rwa [hshift] at this

theorem ownAhead_congr {renames : ℕ → Bool} {origin count i : ℕ} {outputs outputs' : ℕ → Option ℕ}
    (h : ∀ j, i ≤ j → outputs j = outputs' j) :
    OwnAhead renames origin count i outputs ↔ OwnAhead renames origin count i outputs' := by
  have heq (k : ℕ) : outputs (i + k) = outputs' (i + k) := h _ (by omega)
  simp only [OwnAhead, heq]

theorem placed_output {s : ToolState} {i j : ℕ} (h : i < j) :
    (s.placed mutator own m_testcaseDir i).files (mutator.outputFile m_testcaseDir j) =
      s.files (mutator.outputFile m_testcaseDir j) := by
  have hsrc : mutator.outputFile m_testcaseDir j ≠ mutator.outputFile m_testcaseDir i :=
    fun heq => h.ne' (outputFile_inj _ _ heq)
  exact rename_of_ne hsrc (outputFile_ne _ _ j _) s.files

/-- The file that became a child stays as it is to the end of the loop. -/
theorem takeChildren_placed {count i : ℕ} {s : ToolState} (hcount : count < 2 ^ 32) :
    (takeChildren mutator own m_testcaseDir call count (i + 1)
        (s.placed mutator own m_testcaseDir i)).2.files (s.nextPath own m_testcaseDir) =
      s.files (mutator.outputFile m_testcaseDir i) := by
  rw [takeChildren_files]
  · exact rename_dst ..
  · exact fun j _ heq => outputFile_ne _ _ j _ heq.symm
  · intro k hk heq
    have hkey := congrArg TestcaseKey.localID (testcasePath_inj heq)
    have hlocal : s.s_numMutations = s.s_numMutations + 1 + UInt64.ofNat k := hkey
    have hnat := congrArg UInt64.toNat hlocal
    rw [UInt64.toNat_add, UInt64.toNat_add, UInt64.toNat_ofNat'] at hnat
    have := s.s_numMutations.toNat_lt
    have hone : (1 : UInt64).toNat = 1 := rfl
    omega

variable (mutator own m_testcaseDir call) in
theorem takeChildren_own_iff {count i origin : ℕ} {s : ToolState} (hcount : count ≤ 2 ^ 32) :
    (∀ child ∈ (takeChildren mutator own m_testcaseDir call count i s).1,
      child.parentId = call.parentID ∧
        (takeChildren mutator own m_testcaseDir call count i s).2.files child.pathAndFileName =
          some origin) ↔
    OwnAhead call.renames origin count i fun j =>
      s.files (mutator.outputFile m_testcaseDir j) := by
  induction count generalizing i s with
  | zero => simp [takeChildren, OwnAhead]
  | succ count ih =>
    have hcount' : count ≤ 2 ^ 32 := by omega
    rw [ownAhead_succ, takeChildren_succ]
    by_cases hnone : (s.files (mutator.outputFile m_testcaseDir i)).isNone
    · rw [if_pos hnone]
      refine iff_of_true (by simp) fun hsome => ?_
      rw [Option.isNone_iff_eq_none.mp hnone] at hsome
      cases hsome
    · have hsome : (s.files (mutator.outputFile m_testcaseDir i)).isSome := by
        simpa [Option.isSome_iff_ne_none] using hnone
      rw [if_neg hnone, forall_prop_of_true hsome]
      by_cases hrenames : call.renames i
      · have hlater : OwnAhead call.renames origin count (i + 1)
            (fun j => (s.placed mutator own m_testcaseDir i).files
              (mutator.outputFile m_testcaseDir j)) ↔
            OwnAhead call.renames origin count (i + 1)
              fun j => s.files (mutator.outputFile m_testcaseDir j) :=
          ownAhead_congr fun j hj => placed_output (by omega)
        rw [if_pos hrenames, List.forall_mem_cons, takeChildren_placed (by omega),
          forall_prop_of_true hrenames, ih hcount', hlater]
        simp
      · rw [if_neg hrenames, ih (s := s.skipped) hcount']
        simp [hrenames, ToolState.skipped]

/-! ### Calls -/

/-- The files that are there were written by earlier calls. -/
def Earlier (s : ToolState) : Prop := ∀ path origin, s.files path = some origin → origin < s.calls

theorem takeChildren_origin {count i : ℕ} {s : ToolState} {path : String} {origin : ℕ}
    (h : (takeChildren mutator own m_testcaseDir call count i s).2.files path = some origin) :
    ∃ path', s.files path' = some origin := by
  induction count generalizing i s with
  | zero => exact ⟨path, h⟩
  | succ count ih =>
    rw [takeChildren_succ] at h
    split at h
    · exact ⟨path, h⟩
    · split at h
      · obtain ⟨path', hpath'⟩ := ih h
        exact rename_eq_some hpath'
      · exact ih (s := s.skipped) h

variable (mutator own m_testcaseDir call) in
theorem takeChildren_calls (count i : ℕ) (s : ToolState) :
    (takeChildren mutator own m_testcaseDir call count i s).2.calls = s.calls := by
  induction count generalizing i s with
  | zero => rfl
  | succ count ih =>
    rw [takeChildren_succ]
    split
    · rfl
    · split
      · exact ih (i + 1) (s.placed mutator own m_testcaseDir i)
      · exact ih (i + 1) s.skipped

theorem filesWritten_outputFile (s : ToolState) (i : ℕ) :
    call.filesWritten mutator m_testcaseDir s (mutator.outputFile m_testcaseDir i) =
      if i ∈ call.written then some s.calls
      else s.files (mutator.outputFile m_testcaseDir i) := by
  rw [BatchCall.filesWritten]
  refine if_congr ⟨?_, fun hi => ⟨i, hi, rfl⟩⟩ rfl rfl
  rintro ⟨j, hj, heq⟩
  rwa [outputFile_inj _ _ heq]

theorem Earlier.filesWritten {s : ToolState} (h : Earlier s) {path : String} {origin : ℕ}
    (hpath : call.filesWritten mutator m_testcaseDir s path = some origin) :
    origin < s.calls + 1 := by
  rw [BatchCall.filesWritten] at hpath
  split at hpath
  · cases hpath
    exact Nat.lt_succ_self _
  · exact (h path origin hpath).trans (Nat.lt_succ_self _)

variable (mutator m_testcaseDir call) in
/-- When the tool is done. -/
def ToolState.written (s : ToolState) : ToolState :=
  ⟨call.filesWritten mutator m_testcaseDir s, s.s_numMutations, s.calls⟩

variable (mutator own m_testcaseDir call) in
/-- The loop of the call. -/
def ToolState.taken (s : ToolState) : List NewTestcase × ToolState :=
  takeChildren mutator own m_testcaseDir call call.numToGenerate.toNat 1
    (s.written mutator m_testcaseDir call)

variable (mutator own m_testcaseDir call) in
/-- The three ways in which a call ends. -/
theorem batchMutate_cases (s : ToolState) :
    (call.starts = false ∧ call.batchMutate mutator own m_testcaseDir s =
      (none, ⟨s.files, s.s_numMutations, s.calls + 1⟩)) ∨
    (call.completes = false ∧ call.batchMutate mutator own m_testcaseDir s =
      (none, ⟨call.filesWritten mutator m_testcaseDir s, s.s_numMutations, s.calls + 1⟩)) ∨
    (call.starts = true ∧ call.completes = true ∧ call.batchMutate mutator own m_testcaseDir s =
      (some (s.taken mutator own m_testcaseDir call).1,
        ⟨(s.taken mutator own m_testcaseDir call).2.files,
          (s.taken mutator own m_testcaseDir call).2.s_numMutations, s.calls + 1⟩)) := by
  rw [BatchCall.batchMutate]
  cases hstarts : call.starts with
  | false => exact .inl ⟨rfl, rfl⟩
  | true =>
    cases hcompletes : call.completes with
    | false => exact .inr (.inl ⟨rfl, rfl⟩)
    | true =>
      refine .inr (.inr ⟨rfl, rfl, ?_⟩)
      have hcalls : (s.taken mutator own m_testcaseDir call).2.calls = s.calls :=
        takeChildren_calls ..
      change (some (s.taken mutator own m_testcaseDir call).1, ToolState.mk _ _
        ((s.taken mutator own m_testcaseDir call).2.calls + 1)) = _
      rw [hcalls]
      rfl

theorem Earlier.batchMutate {s : ToolState} (h : Earlier s) :
    Earlier (call.batchMutate mutator own m_testcaseDir s).2 := by
  rcases batchMutate_cases mutator own m_testcaseDir call s with
    ⟨-, heq⟩ | ⟨-, heq⟩ | ⟨-, -, heq⟩
  · rw [heq]
    exact fun path origin hpath => (h path origin hpath).trans (Nat.lt_succ_self _)
  · rw [heq]
    exact fun path origin hpath => h.filesWritten hpath
  · rw [heq]
    intro path origin hpath
    obtain ⟨path', hpath'⟩ := takeChildren_origin hpath
    exact h.filesWritten hpath'

theorem earlier_afterBatches (calls : List BatchCall) :
    Earlier (afterBatches mutator own m_testcaseDir calls) := by
  induction calls using List.reverseRecOn with
  | nil =>
    intro path origin h
    cases h
  | append_singleton calls call ih =>
    rw [afterBatches, List.foldl_concat]
    exact ih.batchMutate

/-- What the tool wrote has the number of the call, and what was there has another one. So the
files ahead of the loop are the tool's own unless it comes to one that was there before. -/
theorem ownAhead_written_iff {s : ToolState} (h : Earlier s) (count : ℕ) :
    (OwnAhead call.renames s.calls count 1 fun j =>
      (s.written mutator m_testcaseDir call).files (mutator.outputFile m_testcaseDir j)) ↔
      ∀ i, 1 ≤ i → i ≤ count → i ∉ call.written →
        (s.files (mutator.outputFile m_testcaseDir i)).isSome → call.renames i →
          ∃ j, 1 ≤ j ∧ j < i ∧ j ∉ call.written ∧
            (s.files (mutator.outputFile m_testcaseDir j)).isNone := by
  have hwritten {i : ℕ} (hi : i ∈ call.written) :
      (s.written mutator m_testcaseDir call).files (mutator.outputFile m_testcaseDir i) =
        some s.calls := (filesWritten_outputFile s i).trans (if_pos hi)
  have hleft {i : ℕ} (hi : i ∉ call.written) :
      (s.written mutator m_testcaseDir call).files (mutator.outputFile m_testcaseDir i) =
        s.files (mutator.outputFile m_testcaseDir i) :=
    (filesWritten_outputFile s i).trans (if_neg hi)
  constructor
  · intro hahead i hone hi hmem hsome hrenames
    by_contra hno
    push Not at hno
    obtain ⟨k, rfl⟩ := Nat.exists_eq_add_of_le hone
    have horigin := hahead k (by omega) (fun l hl => ?_) hrenames
    · exact absurd (h _ _ ((hleft hmem).symm.trans horigin)) (lt_irrefl _)
    · dsimp only
      by_cases hl' : 1 + l ∈ call.written
      · rw [hwritten hl']
        rfl
      · rw [hleft hl']
        rcases Nat.lt_or_ge l k with hlt | hge
        · have := hno (1 + l) (by omega) (by omega) hl'
          simpa [Option.isSome_iff_ne_none] using this
        · rwa [Nat.le_antisymm hl hge]
  · intro hno k hk hall hrenames
    by_cases hmem : 1 + k ∈ call.written
    · exact hwritten hmem
    · have hsome := hall k le_rfl
      dsimp only at hsome
      rw [hleft hmem] at hsome
      obtain ⟨j, hone, hj, hjmem, hnone⟩ := hno (1 + k) (by omega) (by omega) hmem hsome hrenames
      obtain ⟨l, rfl⟩ := Nat.exists_eq_add_of_le hone
      have hpresent := hall l (by omega)
      dsimp only at hpresent
      rw [hleft hjmem, Option.isNone_iff_eq_none.mp hnone] at hpresent
      cases hpresent

theorem BatchCall.ownChildren_iff {s : ToolState} (h : Earlier s) :
    call.OwnChildren mutator own m_testcaseDir s ↔ call.NoLeftover mutator m_testcaseDir s := by
  rw [BatchCall.OwnChildren, BatchCall.NoLeftover]
  rcases batchMutate_cases mutator own m_testcaseDir call s with
    ⟨hstarts, heq⟩ | ⟨hcompletes, heq⟩ | ⟨hstarts, hcompletes, heq⟩
  · rw [heq]
    exact iff_of_true (by simp) (by simp [hstarts])
  · rw [heq]
    exact iff_of_true (by simp) (by simp [hcompletes])
  · have hcount : call.numToGenerate.toNat ≤ 2 ^ 32 := call.numToGenerate.toNat_lt.le
    have hown : (∀ child ∈ (s.taken mutator own m_testcaseDir call).1,
        child.parentId = call.parentID ∧
          (s.taken mutator own m_testcaseDir call).2.files child.pathAndFileName =
            some s.calls) ↔ _ :=
      takeChildren_own_iff mutator own m_testcaseDir call hcount
    rw [heq, forall_prop_of_true hstarts, forall_prop_of_true hcompletes]
    simp only [Option.some.injEq, forall_eq']
    exact hown.trans (ownAhead_written_iff h _)

/-- In a sequence of calls every child is a file that the tool wrote in the call that returns
it, if and only if no call comes to a file that an earlier one left. -/
theorem children_own_iff (mutator : ToolMutator) (own : FluffiServiceDescriptor)
    (m_testcaseDir : String) (calls : List BatchCall) :
    (∀ before call after, calls = before ++ call :: after →
      call.OwnChildren mutator own m_testcaseDir
        (afterBatches mutator own m_testcaseDir before)) ↔
    ∀ before call after, calls = before ++ call :: after →
      call.NoLeftover mutator m_testcaseDir
        (afterBatches mutator own m_testcaseDir before) := by
  simp only [BatchCall.ownChildren_iff (earlier_afterBatches _)]

/-- The descriptors are those of the loop over what becomes of the files. -/
theorem takeChildren_batchMutate (count i : ℕ) (s : ToolState) :
    ∃ files, batchMutate own m_testcaseDir call.parentID files s.s_numMutations =
      ((takeChildren mutator own m_testcaseDir call count i s).1,
        (takeChildren mutator own m_testcaseDir call count i s).2.s_numMutations) := by
  induction count generalizing i s with
  | zero => exact ⟨[], rfl⟩
  | succ count ih =>
    rw [takeChildren_succ]
    split
    · exact ⟨[.missing], rfl⟩
    · split
      · obtain ⟨files, hfiles⟩ := ih (i + 1) (s.placed mutator own m_testcaseDir i)
        refine ⟨.placed :: files, ?_⟩
        have hlater : batchMutate own m_testcaseDir call.parentID files (s.s_numMutations + 1) =
          _ := hfiles
        simp only [batchMutate, genNewLocalFluffiTestcaseID, hlater]
        rfl
      · obtain ⟨files, hfiles⟩ := ih (i + 1) s.skipped
        exact ⟨.failed :: files, hfiles⟩

end Mutator

/-- The tool is killed when it has written two mutations of one parent. -/
def killedCall : BatchCall := ⟨2, ⟨⟨"", "parent"⟩, 1⟩, true, {1, 2}, false, fun _ => true⟩

/-- Of another parent it writes only one, as it does at times. -/
def shortCall : BatchCall := ⟨2, ⟨⟨"", "parent"⟩, 2⟩, true, {1}, true, fun _ => true⟩

/-- The second child is a file of the first call. -/
theorem leftover_taken : ¬ ∀ before call after, [killedCall, shortCall] = before ++ call :: after →
    call.OwnChildren .RadamsaMutator ⟨"host:1", "own"⟩ "testcases"
      (afterBatches .RadamsaMutator ⟨"host:1", "own"⟩ "testcases" before) := by
  intro h
  have hown := h [killedCall] shortCall [] rfl
  rw [BatchCall.ownChildren_iff (earlier_afterBatches _)] at hown
  have hwritten : killedCall.filesWritten .RadamsaMutator "testcases" ⟨fun _ => none, 0, 0⟩
      (ToolMutator.RadamsaMutator.outputFile "testcases" 2) = some 0 :=
    (filesWritten_outputFile _ 2).trans (if_pos (by decide))
  have hleft : (afterBatches .RadamsaMutator ⟨"host:1", "own"⟩ "testcases" [killedCall]).files
      (ToolMutator.RadamsaMutator.outputFile "testcases" 2) = some 0 := hwritten
  obtain ⟨j, hone, hj, hmem, -⟩ := hown rfl rfl 2 (by decide) (by decide) (by decide)
    (by rw [hleft]; rfl) rfl
  exact hmem (by rw [shortCall, Finset.mem_singleton]; omega)

end Fluffi.Generator
