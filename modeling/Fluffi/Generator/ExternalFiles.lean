import Fluffi.Generator.Producers
import Fluffi.Shared.TestcasePaths

/-! The files that another tool leaves for the generator, with the disk on which they lie. They
are renamed into the testcase directory one by one, in the order in which the directories list
them, and a name that cannot be read ends the walk through its directory. -/

namespace Fluffi.Generator

open Shared

/-- An entry of a directory of another generator. -/
structure ExtName extends ExtFile where
  isDirectory : Bool
  deriving DecidableEq

/-- An entry of `m_extTestcaseDir`, with its entries if it is a directory. -/
structure ExtContent where
  name : String
  files : Option (List ExtName)

def ExtContent.entry (content : ExtContent) : ExtEntry :=
  ⟨content.name, content.files.map fun files => files.map ExtName.toExtFile⟩

/-- A file, and the directory it was in. -/
structure ExtSource where
  generatorGUID : String
  file : ExtName
  deriving DecidableEq

/-- The files of the testcase directory that were in the external one, under their paths, and
all that were renamed. -/
structure ExtDisk where
  testcases : String → Option ExtSource
  renamed : List ExtSource

/-- A file is renamed. What has the path already is replaced. -/
def ExtDisk.move (disk : ExtDisk) (source : ExtSource) (pathAndFilename : String) : ExtDisk :=
  ⟨Function.update disk.testcases pathAndFilename (some source), disk.renamed ++ [source]⟩

/-- The loop over one directory, and whether `batchMutate` returns from it. -/
def moveFiles (numToGenerate : ℕ) (m_testcaseDir generatorGUID : String) :
    List ExtName → List NewTestcase → ExtDisk → (List NewTestcase × ExtDisk) × Bool
  | [], generatedMutations, disk => ((generatedMutations, disk), false)
  | file :: files, generatedMutations, disk =>
    match parseFileName file.name with
    | none => ((generatedMutations, disk), false)
    | some (parentTestcaseID, localID) =>
      if file.renames then
        let testcaseID : FluffiTestcaseID := ⟨⟨"", generatorGUID⟩, localID⟩
        let pathAndFilename := generateTestcasePathAndFilename testcaseID m_testcaseDir
        let generatedMutations :=
          generatedMutations ++ [⟨testcaseID, parentTestcaseID, pathAndFilename, false⟩]
        let disk := disk.move ⟨generatorGUID, file⟩ pathAndFilename
        if numToGenerate ≤ generatedMutations.length then ((generatedMutations, disk), true)
        else moveFiles numToGenerate m_testcaseDir generatorGUID files generatedMutations disk
      else ((generatedMutations, disk), false)

def moveAll (numToGenerate : ℕ) (m_testcaseDir : String) :
    List ExtContent → List NewTestcase → ExtDisk → List NewTestcase × ExtDisk
  | [], generatedMutations, disk => (generatedMutations, disk)
  | content :: contents, generatedMutations, disk =>
    match content.files with
    | none => moveAll numToGenerate m_testcaseDir contents generatedMutations disk
    | some files =>
      match moveFiles numToGenerate m_testcaseDir content.name files generatedMutations disk with
      | (result, true) => result
      | ((generatedMutations, disk), false) =>
        moveAll numToGenerate m_testcaseDir contents generatedMutations disk

/-- `ExternalMutator::batchMutate` with the disk, before which nothing was renamed. -/
def batchMutateOnDisk (numToGenerate : ℕ) (m_testcaseDir : String) (contents : List ExtContent) :
    List NewTestcase × ExtDisk :=
  if numToGenerate = 0 then ([], ⟨fun _ => none, []⟩)
  else moveAll numToGenerate m_testcaseDir contents [] ⟨fun _ => none, []⟩

/-! ### What is to be taken over -/

def isNumber (text : List Char) : Bool :=
  text ≠ [] && text.all isDigit && digitsValue text < 2 ^ 64

/-- A file named `parentGUID_parentLocalID_localID` with numeric IDs. -/
def ExtName.usable (file : ExtName) : Bool :=
  !file.isDirectory && match file.name.splitOn '_' with
    | [_, parentLocalID, localID] => isNumber parentLocalID && isNumber localID
    | _ => false

def usableFiles (contents : List ExtContent) : List ExtSource :=
  contents.flatMap fun content =>
    ((content.files.getD []).filter ExtName.usable).map (⟨content.name, ·⟩)

/-- The testcase that the name of the file and the name of its directory say. -/
def ExtSource.Names (source : ExtSource) (m_testcaseDir : String) (t : NewTestcase) : Prop :=
  ∃ parentGUID parentLocalID localID,
    source.file.name.splitOn '_' = [parentGUID, parentLocalID, localID] ∧
    t.id = ⟨⟨"", source.generatorGUID⟩, UInt64.ofNat (digitsValue localID)⟩ ∧
    t.parentId = ⟨⟨"", String.ofList parentGUID⟩, UInt64.ofNat (digitsValue parentLocalID)⟩ ∧
    t.pathAndFileName = generateTestcasePathAndFilename t.id m_testcaseDir

/-- As many testcases as are wanted, or as there are usable files, each for a file of its own
that is now at its path, and no other file was renamed. -/
def TakesOver (numToGenerate : ℕ) (m_testcaseDir : String) (contents : List ExtContent) : Prop :=
  let (generatedMutations, disk) := batchMutateOnDisk numToGenerate m_testcaseDir contents
  generatedMutations.length = min numToGenerate (usableFiles contents).length ∧
  (generatedMutations.map NewTestcase.pathAndFileName).Nodup ∧
  List.Forall₂ (fun source t => source.file.usable ∧ source.Names m_testcaseDir t ∧
    disk.testcases t.pathAndFileName = some source) disk.renamed generatedMutations

/-! ### The walk -/

/-- The files of a directory before the first name that cannot be read, with the testcases that
they become. -/
def reachedIn (m_testcaseDir generatorGUID : String) : List ExtName → List (ExtSource × NewTestcase)
  | [] => []
  | file :: files =>
    match parseFileName file.name with
    | none => []
    | some (parentTestcaseID, localID) =>
      (⟨generatorGUID, file⟩, ⟨⟨⟨"", generatorGUID⟩, localID⟩, parentTestcaseID,
        generateTestcasePathAndFilename ⟨⟨"", generatorGUID⟩, localID⟩ m_testcaseDir, false⟩) ::
        reachedIn m_testcaseDir generatorGUID files

def reached (m_testcaseDir : String) (contents : List ExtContent) :
    List (ExtSource × NewTestcase) :=
  contents.flatMap fun content => reachedIn m_testcaseDir content.name (content.files.getD [])

theorem reachedIn_cons (m_testcaseDir generatorGUID : String) (file : ExtName)
    (files : List ExtName) :
    reachedIn m_testcaseDir generatorGUID (file :: files) =
      match parseFileName file.name with
      | none => []
      | some (parentTestcaseID, localID) =>
        (⟨generatorGUID, file⟩, ⟨⟨⟨"", generatorGUID⟩, localID⟩, parentTestcaseID,
          generateTestcasePathAndFilename ⟨⟨"", generatorGUID⟩, localID⟩ m_testcaseDir, false⟩) ::
          reachedIn m_testcaseDir generatorGUID files := rfl

/-- The descriptors do not depend on what is on the disk. -/
theorem moveFiles_takeOverFiles (numToGenerate : ℕ) (m_testcaseDir generatorGUID : String)
    (files : List ExtName) (generatedMutations : List NewTestcase) (disk : ExtDisk) :
    takeOverFiles numToGenerate m_testcaseDir generatorGUID (files.map ExtName.toExtFile)
        generatedMutations =
      ((moveFiles numToGenerate m_testcaseDir generatorGUID files generatedMutations disk).1.1,
        (moveFiles numToGenerate m_testcaseDir generatorGUID files generatedMutations disk).2) := by
  induction files generalizing generatedMutations disk with
  | nil => rfl
  | cons file files ih =>
    rw [List.map_cons, takeOverFiles, moveFiles]
    cases parseFileName file.name with
    | none => rfl
    | some ids =>
      dsimp only
      split
      · split
        · rfl
        · exact ih _ _
      · rfl

theorem moveAll_takeOver (numToGenerate : ℕ) (m_testcaseDir : String)
    (contents : List ExtContent) (generatedMutations : List NewTestcase) (disk : ExtDisk) :
    takeOver numToGenerate m_testcaseDir (contents.map ExtContent.entry) generatedMutations =
      (moveAll numToGenerate m_testcaseDir contents generatedMutations disk).1 := by
  induction contents generalizing generatedMutations disk with
  | nil => rfl
  | cons content contents ih =>
    rw [List.map_cons, takeOver, moveAll, ExtContent.entry]
    cases content.files with
    | none => exact ih _ _
    | some files =>
      dsimp only [Option.map_some]
      rw [moveFiles_takeOverFiles numToGenerate m_testcaseDir content.name files
        generatedMutations disk]
      rcases moveFiles numToGenerate m_testcaseDir content.name files generatedMutations disk with
        ⟨⟨generatedMutations', disk'⟩, _ | _⟩
      · exact ih generatedMutations' disk'
      · rfl

/-- The model without the disk gives the same descriptors. -/
theorem batchMutateOnDisk_fst (numToGenerate : ℕ) (m_testcaseDir : String)
    (contents : List ExtContent) :
    ExternalMutator.batchMutate numToGenerate m_testcaseDir (contents.map ExtContent.entry) =
      (batchMutateOnDisk numToGenerate m_testcaseDir contents).1 := by
  rw [ExternalMutator.batchMutate, batchMutateOnDisk]
  split
  · rfl
  · exact moveAll_takeOver ..

/-- The files are renamed one after the other. -/
def ExtDisk.moves (disk : ExtDisk) (taken : List (ExtSource × NewTestcase)) : ExtDisk :=
  taken.foldl (fun disk p => disk.move p.1 p.2.pathAndFileName) disk

/-- With renames that succeed, a directory gives what is reached of it, up to the number that
is still wanted. -/
theorem moveFiles_eq {numToGenerate : ℕ} {m_testcaseDir generatorGUID : String}
    {files : List ExtName} {generatedMutations : List NewTestcase} {disk : ExtDisk}
    (hrenames : ∀ file ∈ files, file.renames = true)
    (hwanted : generatedMutations.length < numToGenerate) :
    let taken := (reachedIn m_testcaseDir generatorGUID files).take
      (numToGenerate - generatedMutations.length)
    moveFiles numToGenerate m_testcaseDir generatorGUID files generatedMutations disk =
      ((generatedMutations ++ taken.map Prod.snd, disk.moves taken),
        decide (numToGenerate ≤ generatedMutations.length + taken.length)) := by
  induction files generalizing generatedMutations disk with
  | nil => simp [reachedIn, moveFiles, ExtDisk.moves, hwanted]
  | cons file files ih =>
    rw [List.forall_mem_cons] at hrenames
    rw [reachedIn_cons, moveFiles]
    cases parseFileName file.name with
    | none => simp [ExtDisk.moves, hwanted]
    | some ids =>
      obtain ⟨k, hk⟩ : ∃ k, numToGenerate - generatedMutations.length = k + 1 :=
        ⟨numToGenerate - generatedMutations.length - 1, by omega⟩
      dsimp only
      rw [if_pos hrenames.1, hk, List.take_succ_cons]
      split
      next hdone =>
        rw [List.length_append, List.length_singleton] at hdone
        have hzero : k = 0 := by omega
        subst hzero
        simp [ExtDisk.moves]
        omega
      next hmore =>
        rw [List.length_append, List.length_singleton] at hmore
        have hk' (t : NewTestcase) : numToGenerate - (generatedMutations ++ [t]).length = k := by
          rw [List.length_append, List.length_singleton]
          omega
        rw [ih hrenames.2 (by rw [List.length_append, List.length_singleton]; omega), hk']
        simp [ExtDisk.moves]
        omega

theorem moves_append (disk : ExtDisk) (taken taken' : List (ExtSource × NewTestcase)) :
    disk.moves (taken ++ taken') = (disk.moves taken).moves taken' := List.foldl_append

theorem moveAll_eq {numToGenerate : ℕ} {m_testcaseDir : String} {contents : List ExtContent}
    {generatedMutations : List NewTestcase} {disk : ExtDisk}
    (hrenames : ∀ content ∈ contents, ∀ file ∈ content.files.getD [], file.renames = true)
    (hwanted : generatedMutations.length < numToGenerate) :
    let taken := (reached m_testcaseDir contents).take (numToGenerate - generatedMutations.length)
    moveAll numToGenerate m_testcaseDir contents generatedMutations disk =
      (generatedMutations ++ taken.map Prod.snd, disk.moves taken) := by
  induction contents generalizing generatedMutations disk with
  | nil => simp [reached, moveAll, ExtDisk.moves]
  | cons content contents ih =>
    rw [List.forall_mem_cons] at hrenames
    rw [reached, List.flatMap_cons, ← reached, moveAll]
    cases hfiles : content.files with
    | none => exact ih hrenames.2 hwanted
    | some files =>
      have hrenames' : ∀ file ∈ files, file.renames = true := by simpa [hfiles] using hrenames.1
      dsimp only [Option.getD_some]
      rw [moveFiles_eq hrenames' hwanted]
      by_cases hdone : numToGenerate ≤ generatedMutations.length +
          ((reachedIn m_testcaseDir content.name files).take
            (numToGenerate - generatedMutations.length)).length
      · rw [decide_eq_true hdone]
        rw [List.length_take] at hdone
        rw [List.take_append_of_le_length (by omega)]
      · rw [decide_eq_false hdone]
        rw [List.length_take] at hdone
        rw [List.take_of_length_le (by omega), List.take_append, List.take_of_length_le (by omega)]
        dsimp only
        rw [ih hrenames.2 (by rw [List.length_append, List.length_map]; omega),
          List.length_append, List.length_map, Nat.sub_add_eq, List.map_append, moves_append,
          List.append_assoc]

/-- What a call gives if renames succeed. -/
theorem batchMutateOnDisk_eq (numToGenerate : ℕ) (m_testcaseDir : String)
    {contents : List ExtContent}
    (hrenames : ∀ content ∈ contents, ∀ file ∈ content.files.getD [], file.renames = true) :
    batchMutateOnDisk numToGenerate m_testcaseDir contents =
      (((reached m_testcaseDir contents).take numToGenerate).map Prod.snd,
        ExtDisk.moves ⟨fun _ => none, []⟩
          ((reached m_testcaseDir contents).take numToGenerate)) := by
  rw [batchMutateOnDisk]
  split
  next hzero =>
    rw [hzero, List.take_zero]
    rfl
  next hwanted => exact moveAll_eq hrenames (Nat.pos_of_ne_zero hwanted)

/-! ### Names -/

theorem stoull_of_isNumber {text : List Char} (h : isNumber text = true) :
    stoull text = some (UInt64.ofNat (digitsValue text)) := by
  simp only [isNumber, Bool.and_eq_true, decide_eq_true_eq] at h
  obtain ⟨⟨hne, hdigits⟩, hvalue⟩ := h
  rw [List.all_eq_true] at hdigits
  cases text with
  | nil => exact absurd rfl hne
  | cons c text =>
    have hc := hdigits c List.mem_cons_self
    have hblank : " \t\x0c\x0b\n\r".toList.contains c = false := by
      have hall : " \t\x0c\x0b\n\r".toList.all (fun b => !isDigit b) = true := by decide
      rw [List.all_eq_true] at hall
      by_contra hmem
      rw [Bool.not_eq_false, List.contains_iff_mem] at hmem
      have := hall c hmem
      simp [hc] at this
    have hminus : c ≠ '-' := by
      rintro rfl
      exact absurd hc (by decide)
    have hplus : c ≠ '+' := by
      rintro rfl
      exact absurd hc (by decide)
    have htake : (c :: text).takeWhile isDigit = c :: text := List.takeWhile_eq_self_iff.mpr hdigits
    have hdrop : (c :: text).dropWhile " \t\x0c\x0b\n\r".toList.contains = c :: text := by
      rw [List.dropWhile_cons_of_neg (by rw [hblank]; decide)]
    rw [stoull, hdrop]
    simpa [hminus, hplus, htake] using hvalue

/-- A usable name is read as it should be. -/
theorem usable_parses {file : ExtName} (h : file.usable = true) :
    ∃ parentGUID parentLocalID localID,
      file.name.splitOn '_' = [parentGUID, parentLocalID, localID] ∧
      parseFileName file.name = some
        (⟨⟨"", String.ofList parentGUID⟩, UInt64.ofNat (digitsValue parentLocalID)⟩,
          UInt64.ofNat (digitsValue localID)) := by
  rw [ExtName.usable, Bool.and_eq_true] at h
  obtain ⟨-, h⟩ := h
  split at h
  next parentGUID parentLocalID localID hsplit =>
    rw [Bool.and_eq_true] at h
    refine ⟨parentGUID, parentLocalID, localID, hsplit, ?_⟩
    rw [parseFileName, hsplit]
    dsimp only
    rw [stoull_of_isNumber h.1, stoull_of_isNumber h.2]
  next => cases h

theorem mem_reachedIn {m_testcaseDir generatorGUID : String} {files : List ExtName}
    {p : ExtSource × NewTestcase} (h : p ∈ reachedIn m_testcaseDir generatorGUID files) :
    ∃ parentTestcaseID localID, parseFileName p.1.file.name = some (parentTestcaseID, localID) ∧
      p.2 = ⟨⟨⟨"", p.1.generatorGUID⟩, localID⟩, parentTestcaseID, generateTestcasePathAndFilename
        ⟨⟨"", p.1.generatorGUID⟩, localID⟩ m_testcaseDir, false⟩ := by
  induction files with
  | nil => cases h
  | cons file files ih =>
    rw [reachedIn_cons] at h
    split at h
    · cases h
    next parentTestcaseID localID hparse =>
      rcases List.mem_cons.mp h with rfl | h
      · exact ⟨parentTestcaseID, localID, hparse, rfl⟩
      · exact ih h

theorem mem_reached {m_testcaseDir : String} {contents : List ExtContent}
    {p : ExtSource × NewTestcase} (h : p ∈ reached m_testcaseDir contents) :
    ∃ parentTestcaseID localID, parseFileName p.1.file.name = some (parentTestcaseID, localID) ∧
      p.2 = ⟨⟨⟨"", p.1.generatorGUID⟩, localID⟩, parentTestcaseID, generateTestcasePathAndFilename
        ⟨⟨"", p.1.generatorGUID⟩, localID⟩ m_testcaseDir, false⟩ := by
  obtain ⟨content, -, hp⟩ := List.mem_flatMap.mp h
  exact mem_reachedIn hp

/-- What is reached of a usable file is the testcase that the names say. -/
theorem names_of_usable {m_testcaseDir : String} {contents : List ExtContent}
    {p : ExtSource × NewTestcase} (h : p ∈ reached m_testcaseDir contents)
    (husable : p.1.file.usable = true) : p.1.Names m_testcaseDir p.2 := by
  obtain ⟨parentTestcaseID, localID, hparse, hp⟩ := mem_reached h
  obtain ⟨parentGUID, parentLocalID, localID', hsplit, hparse'⟩ := usable_parses husable
  cases hparse.symm.trans hparse'
  rw [hp]
  exact ⟨parentGUID, parentLocalID, localID', hsplit, rfl, rfl, rfl⟩

theorem reachedIn_usable_sublist (m_testcaseDir generatorGUID : String) (files : List ExtName) :
    (((reachedIn m_testcaseDir generatorGUID files).map Prod.fst).filter
      fun source => source.file.usable).Sublist
        ((files.filter ExtName.usable).map (⟨generatorGUID, ·⟩)) := by
  induction files with
  | nil => exact .refl _
  | cons file files ih =>
    rw [reachedIn_cons]
    split
    · exact List.nil_sublist _
    · rw [List.map_cons, List.filter_cons, List.filter_cons]
      split
      · exact ih.cons_cons _
      · exact ih

/-- The usable files that are reached stand in the order of the walk. -/
theorem reached_usable_sublist (m_testcaseDir : String) (contents : List ExtContent) :
    (((reached m_testcaseDir contents).map Prod.fst).filter
      fun source => source.file.usable).Sublist (usableFiles contents) := by
  induction contents with
  | nil => exact .refl _
  | cons content contents ih =>
    rw [reached, List.flatMap_cons, ← reached, List.map_append, List.filter_append, usableFiles,
      List.flatMap_cons, ← usableFiles]
    exact (reachedIn_usable_sublist ..).append ih

/-- As many are taken as should be if and only if the walk does not end too early. -/
theorem length_taken_iff {numToGenerate : ℕ} {m_testcaseDir : String}
    {contents : List ExtContent}
    (husable : ∀ p ∈ (reached m_testcaseDir contents).take numToGenerate,
      p.1.file.usable = true) :
    ((reached m_testcaseDir contents).take numToGenerate).length =
      min numToGenerate (usableFiles contents).length ↔
    numToGenerate ≤ (reached m_testcaseDir contents).length ∨
      (reached m_testcaseDir contents).map Prod.fst = usableFiles contents := by
  have hsublist : (((reached m_testcaseDir contents).take numToGenerate).map Prod.fst).Sublist
      (usableFiles contents) := by
    refine List.Sublist.trans ?_ (reached_usable_sublist m_testcaseDir contents)
    have hfilter : (((reached m_testcaseDir contents).take numToGenerate).map Prod.fst).filter
        (fun source => source.file.usable) =
          ((reached m_testcaseDir contents).take numToGenerate).map Prod.fst := by
      rw [List.filter_eq_self]
      intro source hsource
      obtain ⟨p, hp, rfl⟩ := List.mem_map.mp hsource
      exact husable p hp
    rw [← hfilter]
    exact ((List.take_sublist _ _).map _).filter _
  have hle := hsublist.length_le
  rw [List.length_map] at hle
  rcases Nat.lt_or_ge (reached m_testcaseDir contents).length numToGenerate with hlt | hge
  · rw [List.take_of_length_le hlt.le] at hsublist hle ⊢
    have hlength : ((reached m_testcaseDir contents).map Prod.fst).length =
        (reached m_testcaseDir contents).length := List.length_map ..
    constructor
    · intro heq
      exact .inr (hsublist.eq_of_length (by omega))
    · rintro (h | heq)
      · omega
      · rw [heq] at hlength
        omega
  · rw [List.length_take] at hle ⊢
    exact iff_of_true (by omega) (.inl hge)

/-! ### The files on the disk -/

theorem moves_renamed (disk : ExtDisk) (taken : List (ExtSource × NewTestcase)) :
    (disk.moves taken).renamed = disk.renamed ++ taken.map Prod.fst := by
  induction taken generalizing disk with
  | nil => simp [ExtDisk.moves]
  | cons p taken ih =>
    rw [ExtDisk.moves, List.foldl_cons, ← ExtDisk.moves, ih]
    simp [ExtDisk.move]

theorem moves_testcases_of_notMem (disk : ExtDisk) {taken : List (ExtSource × NewTestcase)}
    {path : String} (h : path ∉ taken.map fun p => p.2.pathAndFileName) :
    (disk.moves taken).testcases path = disk.testcases path := by
  induction taken generalizing disk with
  | nil => rfl
  | cons p taken ih =>
    rw [List.map_cons, List.mem_cons, not_or] at h
    rw [ExtDisk.moves, List.foldl_cons, ← ExtDisk.moves, ih _ h.2]
    exact Function.update_of_ne h.1 ..

/-- If the paths are distinct, each file is at its path in the end. -/
theorem moves_testcases (disk : ExtDisk) {taken : List (ExtSource × NewTestcase)}
    (h : (taken.map fun p => p.2.pathAndFileName).Nodup) {p : ExtSource × NewTestcase}
    (hp : p ∈ taken) : (disk.moves taken).testcases p.2.pathAndFileName = some p.1 := by
  induction taken generalizing disk with
  | nil => cases hp
  | cons q taken ih =>
    rw [List.map_cons, List.nodup_cons] at h
    rw [ExtDisk.moves, List.foldl_cons, ← ExtDisk.moves]
    rcases List.mem_cons.mp hp with rfl | hp
    · rw [moves_testcases_of_notMem _ h.1]
      exact Function.update_self ..
    · exact ih _ h.2 hp

/-- The paths are distinct if and only if the generators or the local IDs are. -/
theorem nodup_paths_iff {m_testcaseDir : String} {contents : List ExtContent}
    {taken : List (ExtSource × NewTestcase)}
    (h : ∀ p ∈ taken, p ∈ reached m_testcaseDir contents) :
    (taken.map fun p => p.2.pathAndFileName).Nodup ↔
      (taken.map fun p => (p.1.generatorGUID, p.2.id.m_localID)).Nodup := by
  have hiff : ∀ p ∈ taken, ∀ q ∈ taken, p.2.pathAndFileName = q.2.pathAndFileName ↔
      (p.1.generatorGUID, p.2.id.m_localID) = (q.1.generatorGUID, q.2.id.m_localID) := by
    intro p hp q hq
    obtain ⟨_, localID, -, hp'⟩ := mem_reached (h p hp)
    obtain ⟨_, localID', -, hq'⟩ := mem_reached (h q hq)
    rw [hp', hq', Prod.mk.injEq]
    constructor
    · intro heq
      exact TestcaseKey.mk.inj (testcasePath_inj heq)
    · rintro ⟨hguid, hlocal⟩
      dsimp only at hguid hlocal ⊢
      rw [hguid, hlocal]
  rw [List.Nodup, List.Nodup, List.pairwise_map, List.pairwise_map]
  constructor
  · exact fun hnodup => hnodup.imp_of_mem fun hp hq hne heq => hne ((hiff _ hp _ hq).mpr heq)
  · exact fun hnodup => hnodup.imp_of_mem fun hp hq hne heq => hne ((hiff _ hp _ hq).mp heq)

/-- With renames that succeed, a call takes over what it should if and only if the files it
reaches, up to the number that is wanted, are usable, no two of them have one generator and one
local ID, and they are as many as are wanted or all that are usable. -/
theorem takesOver_iff (numToGenerate : ℕ) (m_testcaseDir : String) (contents : List ExtContent)
    (hrenames : ∀ content ∈ contents, ∀ file ∈ content.files.getD [], file.renames = true) :
    TakesOver numToGenerate m_testcaseDir contents ↔
      (∀ p ∈ (reached m_testcaseDir contents).take numToGenerate, p.1.file.usable = true) ∧
      (((reached m_testcaseDir contents).take numToGenerate).map
        fun p => (p.1.generatorGUID, p.2.id.m_localID)).Nodup ∧
      (numToGenerate ≤ (reached m_testcaseDir contents).length ∨
        (reached m_testcaseDir contents).map Prod.fst = usableFiles contents) := by
  have hreached : ∀ p ∈ (reached m_testcaseDir contents).take numToGenerate,
      p ∈ reached m_testcaseDir contents := fun p hp => List.mem_of_mem_take hp
  rw [TakesOver, batchMutateOnDisk_eq numToGenerate m_testcaseDir hrenames]
  dsimp only
  rw [List.length_map, List.map_map, moves_renamed, List.nil_append, List.forall₂_map_left_iff,
    List.forall₂_map_right_iff, List.forall₂_same]
  constructor
  · rintro ⟨hlength, hnodup, htaken⟩
    have husable := fun p hp => (htaken p hp).1
    exact ⟨husable, (nodup_paths_iff hreached).mp hnodup, (length_taken_iff husable).mp hlength⟩
  · rintro ⟨husable, hnodup, hlength⟩
    have hpaths := (nodup_paths_iff hreached).mpr hnodup
    refine ⟨(length_taken_iff husable).mpr hlength, hpaths, fun p hp => ?_⟩
    exact ⟨husable p hp, names_of_usable (hreached p hp) (husable p hp),
      moves_testcases _ hpaths hp⟩

/-- A directory with a stray file and a usable one, in this order. -/
def strayFirst : List ExtContent :=
  [⟨"generator", some [⟨⟨"readme".toList, true⟩, false⟩, ⟨⟨"parent_1_2".toList, true⟩, false⟩]⟩]

theorem strayFirst_renames :
    ∀ content ∈ strayFirst, ∀ file ∈ content.files.getD [], file.renames = true := by
  simp [strayFirst]

theorem takesOver_iff_strayFirst :
    TakesOver 3 "testcases" strayFirst ↔
      (∀ p ∈ (reached "testcases" strayFirst).take 3, p.1.file.usable = true) ∧
      (((reached "testcases" strayFirst).take 3).map
        fun p => (p.1.generatorGUID, p.2.id.m_localID)).Nodup ∧
      (3 ≤ (reached "testcases" strayFirst).length ∨
        (reached "testcases" strayFirst).map Prod.fst = usableFiles strayFirst) :=
  takesOver_iff 3 "testcases" strayFirst strayFirst_renames

/-- The stray file prevents that the usable one is taken. -/
theorem stray_prevents : ¬ TakesOver 3 "testcases" strayFirst := by
  rintro ⟨hlength, -⟩
  have husable : (usableFiles strayFirst).length = 1 := by decide
  rw [husable] at hlength
  exact absurd hlength (by decide)

end Fluffi.Generator
