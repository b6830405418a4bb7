import Fluffi.Generator.Cleaner
import Fluffi.LocalManager.HandOut

/-! Where the testcases of a generator come from. Mutators number their mutations
under the service descriptor of the generator itself. Originals that should also
run without mutation keep the ID the local manager sent, and files that another
tool leaves in a directory get the GUID that is the name of their directory. Only
the first of these IDs say at which host and port the file can be fetched. -/

namespace Fluffi.Generator

open Shared Systems TestcaseDescriptor TGState
open LocalManager (InterestingTestcase GetTestcaseToMutateResponse
  generateGetTestcaseToMutateResponse)

/-! ### Mutations -/

/-- `FluffiMutator::genNewLocalFluffiTestcaseID` -/
def genNewLocalFluffiTestcaseID (m_selfServiceDescriptor : FluffiServiceDescriptor)
    (s_numMutations : UInt64) : FluffiTestcaseID × UInt64 :=
  (⟨m_selfServiceDescriptor, s_numMutations⟩, s_numMutations + 1)

/-- The file of one mutation has got its name, or could not be written or renamed,
or the tool left none and the loop ends. -/
inductive MutationFile where
  | placed
  | failed
  | missing
  deriving DecidableEq, Repr

/-- The loop of `batchMutate`, which all mutators of mutations share. -/
def batchMutate (m_selfServiceDescriptor : FluffiServiceDescriptor) (m_testcaseDir : String)
    (parentID : FluffiTestcaseID) : List MutationFile → UInt64 → List NewTestcase × UInt64
  | [], s_numMutations => ([], s_numMutations)
  | file :: files, s_numMutations =>
    let (testcaseID, s_numMutations) :=
      genNewLocalFluffiTestcaseID m_selfServiceDescriptor s_numMutations
    match file with
    | .placed =>
      let (generated, s_numMutations) :=
        batchMutate m_selfServiceDescriptor m_testcaseDir parentID files s_numMutations
      (⟨testcaseID, parentID, generateTestcasePathAndFilename testcaseID m_testcaseDir, false⟩ ::
        generated, s_numMutations)
    | .failed => batchMutate m_selfServiceDescriptor m_testcaseDir parentID files s_numMutations
    | .missing => ([], s_numMutations)

/-! ### Originals -/

/-- What `getNewParent` queues of the parent that it has stored, where `isQueued`
says if the file is already in the testcase directory. -/
def originalToRun (receivedTestcase : GetTestcaseToMutateResponse) (m_testcaseDirectory : String)
    (isQueued : Bool) : List NewTestcase :=
  if receivedTestcase.alsorunwithoutmutation && !isQueued then
    [⟨receivedTestcase.id, ⟨⟨"special", "special"⟩, 0⟩,
      generateTestcasePathAndFilename receivedTestcase.id m_testcaseDirectory, true⟩]
  else []

/-! ### Files of another tool -/

def isDigit (c : Char) : Bool := '0' ≤ c && c ≤ '9'

def digitsValue (digits : List Char) : ℕ :=
  digits.foldl (fun n c => 10 * n + (c.toNat - '0'.toNat)) 0

/-- `std::stoull` in base ten; `none` where it throws. -/
def stoull (text : List Char) : Option UInt64 :=
  let text := text.dropWhile " \t\x0c\x0b\n\r".toList.contains
  let (negative, text) := match text with
    | '-' :: rest => (true, rest)
    | '+' :: rest => (false, rest)
    | _ => (false, text)
  let digits := text.takeWhile isDigit
  if digits = [] ∨ 2 ^ 64 ≤ digitsValue digits then none
  else
    let value := UInt64.ofNat (digitsValue digits)
    some (if negative then 0 - value else value)

/-- `parentGUID_parentLocalID_localID` -/
def parseFileName (name : List Char) : Option (FluffiTestcaseID × UInt64) :=
  match name.splitOn '_' with
  | [parentGUID, parentLocalID, localID] =>
    match stoull parentLocalID, stoull localID with
    | some parentLocalID, some localID =>
      some (⟨⟨"", String.ofList parentGUID⟩, parentLocalID⟩, localID)
    | _, _ => none
  | _ => none

/-- A file in a directory of another generator, and whether it can be renamed. -/
structure ExtFile where
  name : List Char
  renames : Bool
  deriving DecidableEq, Repr

/-- An entry of `m_extTestcaseDir`; no files where it is not a directory. -/
structure ExtEntry where
  name : String
  files : Option (List ExtFile)
  deriving DecidableEq, Repr

/-- The loop over one directory, and whether `batchMutate` returns from it. -/
def takeOverFiles (numToGenerate : ℕ) (m_testcaseDir generatorGUID : String) :
    List ExtFile → List NewTestcase → List NewTestcase × Bool
  | [], generatedMutations => (generatedMutations, false)
  | file :: files, generatedMutations =>
    match parseFileName file.name with
    | none => (generatedMutations, false)
    | some (parentTestcaseID, localID) =>
      if file.renames then
        let testcaseID : FluffiTestcaseID := ⟨⟨"", generatorGUID⟩, localID⟩
        let generatedMutations := generatedMutations ++ [⟨testcaseID, parentTestcaseID,
          generateTestcasePathAndFilename testcaseID m_testcaseDir, false⟩]
        if numToGenerate ≤ generatedMutations.length then (generatedMutations, true)
        else takeOverFiles numToGenerate m_testcaseDir generatorGUID files generatedMutations
      else (generatedMutations, false)

def takeOver (numToGenerate : ℕ) (m_testcaseDir : String) :
    List ExtEntry → List NewTestcase → List NewTestcase
  | [], generatedMutations => generatedMutations
  | entry :: entries, generatedMutations =>
    match entry.files with
    | none => takeOver numToGenerate m_testcaseDir entries generatedMutations
    | some files =>
      match takeOverFiles numToGenerate m_testcaseDir entry.name files generatedMutations with
      | (generatedMutations, true) => generatedMutations
      | (generatedMutations, false) =>
        takeOver numToGenerate m_testcaseDir entries generatedMutations

/-- `ExternalMutator::batchMutate`, over the entries in the order of the iteration. -/
def ExternalMutator.batchMutate (numToGenerate : ℕ) (m_testcaseDir : String)
    (entries : List ExtEntry) : List NewTestcase :=
  if numToGenerate = 0 then [] else takeOver numToGenerate m_testcaseDir entries []

/-! ### Producers -/

/-- What the queue filler can push. -/
inductive Produced (C : ℕ) (own : FluffiServiceDescriptor) (m_testcaseDir : String) :
    List NewTestcase → Prop
  | mutations (parentID : FluffiTestcaseID) (files : List MutationFile) (s_numMutations : UInt64) :
      Produced C own m_testcaseDir (batchMutate own m_testcaseDir parentID files s_numMutations).1
  | original (row : Option InterestingTestcase) (opens : Bool) (countOfBlocks : Option ℕ)
      (isQueued : Bool) :
      Produced C own m_testcaseDir (originalToRun
        (generateGetTestcaseToMutateResponse C row opens countOfBlocks) m_testcaseDir isQueued)
  | external (numToGenerate : ℕ) (entries : List ExtEntry) :
      Produced C own m_testcaseDir
        (ExternalMutator.batchMutate numToGenerate m_testcaseDir entries)

/-- The ID names the generator itself, or no host and port at all, and the file is
where the ID says. -/
def Placed (own : FluffiServiceDescriptor) (m_testcaseDir : String) (id : FluffiTestcaseID)
    (pathAndFileName : String) : Prop :=
  (id.m_serviceDescriptor = own ∨ id.m_serviceDescriptor.m_serviceHostAndPort = "") ∧
    pathAndFileName = generateTestcasePathAndFilename id m_testcaseDir

section Placed

variable {C : ℕ} {own : FluffiServiceDescriptor} {m_testcaseDir : String}

theorem batchMutate_placed (parentID : FluffiTestcaseID) (files : List MutationFile)
    (s_numMutations : UInt64) :
    ∀ t ∈ (batchMutate own m_testcaseDir parentID files s_numMutations).1,
      Placed own m_testcaseDir t.id t.pathAndFileName := by
  induction files generalizing s_numMutations with
  | nil => simp [batchMutate]
  | cons file files ih =>
    cases file with
    | placed =>
      simp only [batchMutate, List.forall_mem_cons]
      exact ⟨⟨.inl rfl, rfl⟩, ih _⟩
    | failed => exact ih _
    | missing => simp [batchMutate]

theorem originalToRun_placed (row : Option InterestingTestcase) (opens : Bool)
    (countOfBlocks : Option ℕ) (isQueued : Bool) :
    ∀ t ∈ originalToRun (generateGetTestcaseToMutateResponse C row opens countOfBlocks)
      m_testcaseDir isQueued, Placed own m_testcaseDir t.id t.pathAndFileName := by
  have hid : (generateGetTestcaseToMutateResponse C row opens
      countOfBlocks).id.m_serviceDescriptor.m_serviceHostAndPort = "" := by
    unfold generateGetTestcaseToMutateResponse
    cases row with
    | none => rfl
    | some row =>
      simp only
      split <;> rfl
  intro t ht
  simp only [originalToRun] at ht
  split at ht
  · obtain rfl := List.mem_singleton.mp ht
    exact ⟨.inr hid, rfl⟩
  · cases ht

theorem placed_snoc {ts : List NewTestcase} {new : NewTestcase}
    (h : ∀ t ∈ ts, Placed own m_testcaseDir t.id t.pathAndFileName)
    (hnew : Placed own m_testcaseDir new.id new.pathAndFileName) :
    ∀ t ∈ ts ++ [new], Placed own m_testcaseDir t.id t.pathAndFileName :=
  List.forall_mem_append.mpr ⟨h, List.forall_mem_singleton.mpr hnew⟩

theorem takeOverFiles_placed (numToGenerate : ℕ) (generatorGUID : String) (files : List ExtFile)
    (generatedMutations : List NewTestcase)
    (h : ∀ t ∈ generatedMutations, Placed own m_testcaseDir t.id t.pathAndFileName) :
    ∀ t ∈ (takeOverFiles numToGenerate m_testcaseDir generatorGUID files generatedMutations).1,
      Placed own m_testcaseDir t.id t.pathAndFileName := by
  induction files generalizing generatedMutations with
  | nil => exact h
  | cons file files ih =>
    simp only [takeOverFiles]
    split
    · exact h
    · split
      case isTrue =>
        split
        · exact placed_snoc h ⟨.inr rfl, rfl⟩
        · exact ih _ (placed_snoc h ⟨.inr rfl, rfl⟩)
      · exact h

theorem takeOver_placed {numToGenerate : ℕ} (entries : List ExtEntry)
    (generatedMutations : List NewTestcase)
    (h : ∀ t ∈ generatedMutations, Placed own m_testcaseDir t.id t.pathAndFileName) :
    ∀ t ∈ takeOver numToGenerate m_testcaseDir entries generatedMutations,
      Placed own m_testcaseDir t.id t.pathAndFileName := by
  induction entries generalizing generatedMutations with
  | nil => exact h
  | cons entry entries ih =>
    simp only [takeOver]
    cases entry.files with
    | none => exact ih _ h
    | some files =>
      have hfiles := takeOverFiles_placed numToGenerate entry.name files generatedMutations h
      simp only
      split
      case h_1 heq =>
        rw [heq] at hfiles
        exact hfiles
      case h_2 heq =>
        rw [heq] at hfiles
        exact ih _ hfiles

theorem Produced.placed {ts : List NewTestcase} (h : Produced C own m_testcaseDir ts) :
    ∀ t ∈ ts, Placed own m_testcaseDir t.id t.pathAndFileName := by
  cases h with
  | mutations parentID files s_numMutations =>
    exact batchMutate_placed parentID files s_numMutations
  | original row opens countOfBlocks isQueued =>
    exact originalToRun_placed row opens countOfBlocks isQueued
  | external numToGenerate entries =>
    unfold ExternalMutator.batchMutate
    split
    · simp
    · exact takeOver_placed entries [] (by simp)

end Placed

/-! ### What the generator holds -/

/-- What is true of every testcase that was generated is true of every testcase
that waits or was sent. -/
structure Holds (P : FluffiTestcaseID → String → Prop) (s : TGState) : Prop where
  pending : ∀ d ∈ s.manager.m_pendingTestcaseQueue, P d.m_id d.m_pathAndFileName
  sent : ∀ d ∈ s.manager.m_sentButNotEvaluatedTestcaseSet, P d.m_id d.m_pathAndFileName
  reported : ∀ d ∈ s.testcasesThatNeedToBeReported, P d.m_id d.m_pathAndFileName

/-- The new testcases of the step, if it generates any, are as `P` says. -/
def Generates (P : FluffiTestcaseID → String → Prop) (_ : TGState) (e : TGEvent) : Prop :=
  ∀ ts, e = .generate ts → ∀ t ∈ ts, P t.id t.pathAndFileName

variable {P : FluffiTestcaseID → String → Prop} {cfg : CleanerConfig} {s t : TGState}

theorem holds_construct {n : ℕ} {ts : List NewTestcase} (h : ∀ t ∈ ts, P t.id t.pathAndFileName) :
    ∀ d ∈ construct n ts, P d.m_id d.m_pathAndFileName := by
  intro d hd
  obtain ⟨p, hp, rfl⟩ := List.mem_map.mp hd
  exact h p.1 (List.fst_mem_of_mem_zipIdx hp)

theorem Holds.next {e : TGEvent} (h : Holds P s) (hg : Generates P s e)
    (hnext : s.next cfg e = some t) : Holds P t := by
  cases e with
  | tick elapsed =>
    obtain rfl := Option.some.inj hnext
    exact ⟨h.pending, h.sent, h.reported⟩
  | generate ts =>
    obtain rfl := Option.some.inj hnext
    exact ⟨List.forall_mem_append.mpr ⟨h.pending, holds_construct (hg ts rfl)⟩, h.sent, h.reported⟩
  | pop =>
    simp only [TGState.next] at hnext
    obtain ⟨_, herror⟩ | ⟨front, rest, hqueue, hpop⟩ :=
      s.manager.pop_cases s.now
    · rw [herror] at hnext
      obtain rfl := Option.some.inj hnext
      exact h
    · rw [hpop] at hnext
      obtain rfl := Option.some.inj hnext
      have hpending := h.pending
      rw [hqueue, List.forall_mem_cons] at hpending
      exact ⟨hpending.2, List.forall_mem_append.mpr
        ⟨h.sent, List.forall_mem_singleton.mpr hpending.1⟩, h.reported⟩
  | removeCompleted response =>
    simp only [TGState.next] at hnext
    split at hnext
    case isFalse => cases hnext
    cases response with
    | none =>
      obtain rfl := Option.some.inj hnext
      exact ⟨h.pending, h.sent, h.reported⟩
    | some ids =>
      simp only [TGTestcaseManager.removeEvaluated_eq] at hnext
      obtain rfl := Option.some.inj hnext
      exact ⟨h.pending, fun d hd => h.sent d (List.mem_of_mem_filter hd), h.reported⟩
  | handOut =>
    simp only [TGState.next] at hnext
    split at hnext
    case isFalse => cases hnext
    simp only [TGTestcaseManager.handMe_eq] at hnext
    obtain rfl := Option.some.inj hnext
    exact ⟨h.pending, fun d hd => h.sent d (List.mem_of_mem_filter hd),
      fun d hd => h.sent d (List.mem_of_mem_filter hd)⟩
  | report success =>
    simp only [TGState.next] at hnext
    split at hnext
    case isFalse => cases hnext
    split at hnext
    case h_2 => cases hnext
    case h_1 tcToReport hlast =>
      have hrest : ∀ d ∈ s.testcasesThatNeedToBeReported.dropLast, P d.m_id d.m_pathAndFileName :=
        fun d hd => h.reported d (List.mem_of_mem_dropLast hd)
      split at hnext
      · obtain rfl := Option.some.inj hnext
        exact ⟨h.pending, h.sent, hrest⟩
      · obtain rfl := Option.some.inj hnext
        have hback := h.reported tcToReport (List.mem_of_getLast? hlast)
        exact ⟨List.forall_mem_append.mpr ⟨h.pending, List.forall_mem_singleton.mpr hback⟩,
          h.sent, hrest⟩
  | reinsert clock =>
    simp only [TGState.next] at hnext
    split at hnext
    case isFalse => cases hnext
    cases clock with
    | none =>
      obtain rfl := Option.some.inj hnext
      exact ⟨h.pending, h.sent, h.reported⟩
    | some time =>
      simp only [TGTestcaseManager.reinsert_eq] at hnext
      split at hnext
      case isFalse => cases hnext
      obtain rfl := Option.some.inj hnext
      exact ⟨List.forall_mem_append.mpr ⟨h.pending,
          fun d hd => h.sent d (List.mem_of_mem_filter hd)⟩,
        fun d hd => h.sent d (List.mem_of_mem_filter hd), h.reported⟩

/-- Every testcase of a generator came from a producer. -/
theorem holds_run {now : ℤ} {tr : List (TGState × TGEvent)}
    (hr : Run (TGState.next cfg) (.init now) tr s) (hg : ∀ p ∈ tr, Generates P p.1 p.2) :
    Holds P s := by
  have hinit : Holds P (.init now) := ⟨by simp [TGState.init, TGTestcaseManager.empty],
    by simp [TGState.init, TGTestcaseManager.empty], by simp [TGState.init]⟩
  exact (hr.invariant_mem (G := Generates P) (I := Holds P) hg hinit
    fun h hg hnext => h.next hg hnext).1

end Fluffi.Generator
