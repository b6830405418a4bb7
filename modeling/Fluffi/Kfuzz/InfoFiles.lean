import Fluffi.Kfuzz.Provider
import Fluffi.Runner.OriginalBytes
import Fluffi.Runner.SectionLines

/-! The answer of the emulator to `info files`, as the runner reads it on Windows. Section names
have eight characters, filled up with blanks, and `in ` is looked for from the left, so it must
not stand in a section name. -/

namespace Fluffi.Kfuzz

open Fluffi.Runner.Gdb Fluffi.Shared Fluffi.Systems
open InfoFilesParser (quotedName behindMinus)

/-! ### The parser with another way to split a path -/

section Parser

variable (splitPathIntoDirectoryAndFileName : Line → Line × Line)

/-- One line, as `InfoFilesParser.parseLine` reads it on Linux. -/
def parseLine (s : InfoFilesParser) (lineIt : Line) : Option InfoFilesParser :=
  if !s.reachedMainPart then
    if lineIt.take 5 == "Local".toList then some { s with reachedMainPart := true } else some s
  else if contains lineIt "file type" then
    match quotedName lineIt with
    | some mainPathAndName =>
      let directoryAndFilename := splitPathIntoDirectoryAndFileName mainPathAndName
      some { s with procName := directoryAndFilename.2, procPath := directoryAndFilename.1 }
    | none => some s
  else
    let trimmedLine := trim Runner.Gdb.isSpace lineIt
    if trimmedLine = [] then some s
    else
      match Runner.Gdb.find trimmedLine "is " with
      | none => some s
      | some fromIs => do
        let afterIs := fromIs.drop 3
        let currentSegmentName := afterIs.takeWhile (· ≠ ' ')
        let (currentPath, currentName) := match Runner.Gdb.find afterIs "in " with
          | some fromIn => splitPathIntoDirectoryAndFileName (fromIn.drop 3)
          | none => (s.procPath, s.procName)
        let currentStartAddress ← stoull16 trimmedLine
        let currentEndAddress ← stoull16 (behindMinus trimmedLine)
        some { s with loadedFiles := s.loadedFiles ++ [⟨currentStartAddress, currentEndAddress,
          currentName, currentSegmentName, currentPath⟩] }

def parseInfoFiles (infoFilesResp : Line) : Option (List ModuleInformation) :=
  ((splitString infoFilesResp ['\n']).foldlM (parseLine splitPathIntoDirectoryAndFileName)
    .init).map (·.loadedFiles)

/-- On Linux it is the one that is there. -/
theorem parseInfoFiles_linux :
    parseInfoFiles Shared.splitPathIntoDirectoryAndFileName = Runner.Gdb.parseInfoFiles := rfl

end Parser

/-! ### What is shown -/

/-- What a line shows: a section with its eight characters, and the module it belongs to. -/
structure Shown where
  start : UInt64
  stop : UInt64
  segname : Line
  name : Line

namespace Shown

def line (s : Shown) : Line := Target.rangeLine s.start s.stop s.segname s.name

/-- The section as the runner should know it: a blank ends its name. -/
def information (split : Line → Line × Line) (s : Shown) : ModuleInformation :=
  ⟨s.start, s.stop, (split s.name).2, s.segname.takeWhile (· ≠ ' '), (split s.name).1⟩

/-- `in ` is found behind the section name first, `file type` is not found, and the line ends
with the name. -/
structure Readable (s : Shown) : Prop where
  behind : ¬ "in ".toList <:+: s.segname ++ " in".toList
  notMain : ¬ "file type".toList <:+: s.segname ++ " in ".toList ++ s.name
  oneLine : '\n' ∉ s.segname ∧ '\n' ∉ s.name
  nameEnd : ∃ c ∈ s.name.getLast?, Runner.Gdb.isSpace c = false

end Shown

/-- A module, and its sections behind it. -/
def LoadedModule.shown (m : LoadedModule) : List Shown :=
  ⟨m.Base, m.Base + m.Size.toUInt64, ".base   ".toList, m.name⟩ ::
    m.sections.map fun s => ⟨m.Base + s.VirtualAddress.toUInt64,
      m.Base + s.VirtualAddress.toUInt64 + s.VirtualSize.toUInt64, Target.segname s, m.name⟩

def Target.shown (t : Target) : List Shown := t.modules.flatMap LoadedModule.shown

/-- All of it, as the runner should know it. -/
def Target.loadedFiles (split : Line → Line × Line) (t : Target) : List ModuleInformation :=
  t.shown.map (Shown.information split)

theorem infoFiles_eq (t : Target) :
    t.infoFiles = "Local exec file:".toList :: t.shown.map Shown.line := by
  have hmodules : ∀ modules : List LoadedModule, modules.flatMap Target.moduleLines =
      (modules.flatMap LoadedModule.shown).map Shown.line := by
    intro modules
    induction modules with
    | nil => rfl
    | cons m modules ih =>
      rw [List.flatMap_cons, List.flatMap_cons, List.map_append, ih, Target.moduleLines,
        LoadedModule.shown, List.map_cons, List.map_map]
      rfl
  rw [Target.infoFiles, Target.shown, hmodules]

/-! ### One line -/

/-- A text is found behind a part that it does not begin in. -/
theorem findFirst_append_of_not_infix {α : Type*} [DecidableEq α] {pattern u v : List α}
    (h : ¬ pattern <:+: u ++ v.take (pattern.length - 1)) :
    findFirst pattern (u ++ v) = findFirst pattern v := by
  induction u with
  | nil => rfl
  | cons a u ih =>
    have hnot : ¬ pattern <+: a :: (u ++ v) := by
      intro hp
      have hle := hp.length_le
      have hfront : a :: u ++ v.take (pattern.length - 1) <+: a :: (u ++ v) :=
        (List.prefix_append_right_inj (a :: u)).mpr (List.take_prefix _ v)
      refine h (List.prefix_of_prefix_length_le hp hfront ?_).isInfix
      simp only [List.length_cons, List.length_append, List.length_take] at hle ⊢
      omega
    rw [List.cons_append, findFirst_cons, if_neg (by simpa using hnot)]
    exact ih fun hi => h (List.infix_cons_iff.mpr (.inr hi))

namespace Shown

variable {s : Shown} {split : Line → Line × Line}

/-- The addresses, as a line of GDB has them. -/
def addresses (s : Shown) : Section := ⟨s.start, s.stop, [], none, by simp⟩

def names (s : Shown) : Line := s.segname ++ " in ".toList ++ s.name

theorem line_eq : s.line =
    "        ".toList ++ (s.addresses.addressesText 16 ++ ' ' :: s.names) := by
  have his : " is ".toList = " is".toList ++ [' '] := rfl
  unfold line Target.rangeLine Section.addressesText addresses names
  rw [his]
  generalize "        ".toList = indent
  simp only [List.append_assoc, List.cons_append, List.nil_append]

theorem trim_line (h : s.Readable) :
    trim Runner.Gdb.isSpace (s.line ++ ['\r']) =
      s.addresses.addressesText 16 ++ ' ' :: s.names := by
  obtain ⟨c, hc, hspace⟩ := h.nameEnd
  have hindent : ∀ c ∈ "        ".toList, Runner.Gdb.isSpace c = true := by
    exact List.all_eq_true.mp (by decide : "        ".toList.all Runner.Gdb.isSpace = true)
  have hdrop : (s.line ++ ['\r']).dropWhile Runner.Gdb.isSpace =
      s.addresses.addressesText 16 ++ ' ' :: s.names ++ ['\r'] := by
    rw [line_eq, List.append_assoc, List.dropWhile_append_of_pos hindent]
    simp only [Section.addressesText, addressText, List.append_assoc]
    exact List.dropWhile_cons_of_neg (by decide)
  rw [trim, hdrop, trimEnd_append_of_blank _ (by simp; decide), trimEnd_eq_self]
  intro d hd
  have hlast : (s.addresses.addressesText 16 ++ ' ' :: s.names).getLast? = s.name.getLast? := by
    have hne : s.name ≠ [] := by
      rintro hnil
      rw [hnil] at hc
      cases hc
    rw [names, List.append_cons, ← List.append_assoc, List.getLast?_append_of_ne_nil _ hne]
  rw [hlast] at hd
  rw [← Option.mem_unique hc hd, hspace]

theorem takeWhile_names : s.names.takeWhile (· ≠ ' ') = s.segname.takeWhile (· ≠ ' ') := by
  have hin : (" in ".toList ++ s.name).takeWhile (· ≠ ' ') = [] := rfl
  rw [names, List.append_assoc, List.takeWhile_append, hin, List.append_nil]
  split
  case isTrue h => exact (List.takeWhile_prefix _).eq_of_length h |>.symm
  case isFalse => rfl

theorem find_in (h : s.Readable) :
    Runner.Gdb.find s.names "in " = some ("in ".toList ++ s.name) := by
  have hsplit : s.names = s.segname ++ [' '] ++ ("in ".toList ++ s.name) := by simp [names]
  rw [find_eq, hsplit, findFirst_append_of_not_infix]
  · exact findFirst_of_isPrefixOf ⟨s.name, rfl⟩
  · have htake : ("in ".toList ++ s.name).take ("in ".toList.length - 1) = "in".toList := rfl
    rw [htake, List.append_assoc]
    exact h.behind

/-- There is no `l` in the addresses, and nothing behind the name. -/
theorem not_fileType (h : s.Readable) : ¬ "file type".toList <:+: s.line ++ ['\r'] := by
  have hsplit : s.line ++ ['\r'] = ("        ".toList ++ (addressText 16 s.start ++
      (" - ".toList ++ (addressText 16 s.stop ++ " i".toList)))) ++
        's' :: ((' ' :: s.names) ++ '\r' :: []) := by
    have hi : " is".toList = " i".toList ++ ['s'] := rfl
    rw [line_eq, Section.addressesText, hi]
    generalize "        ".toList = indent
    simp only [addresses, List.append_assoc, List.cons_append, List.nil_append]
  have haddress : ∀ address, 'l' ∉ addressText 16 address :=
    notMem_addressText (by decide) (by decide) 16
  rw [hsplit, infix_append_cons_iff (by decide), infix_append_cons_iff (by decide), not_or, not_or]
  refine ⟨fun hi => ?_, fun hi => ?_, fun hi => ?_⟩
  · have hl := hi.subset (show 'l' ∈ "file type".toList by decide)
    simp only [List.mem_append, haddress, false_or] at hl
    rcases hl with hl | hl | hl <;> revert hl <;> decide
  · rcases List.infix_cons_iff.mp hi with hp | hi
    · exact absurd (List.cons_prefix_cons.mp hp).1 (by decide)
    · exact h.notMain hi
  · exact absurd (List.infix_nil.mp hi) (by decide)

theorem parseLine_line (h : s.Readable) {p : InfoFilesParser} (hmain : p.reachedMainPart = true) :
    parseLine split p (s.line ++ ['\r']) =
      some { p with loadedFiles := p.loadedFiles ++ [s.information split] } := by
  have hfileType : contains (s.line ++ ['\r']) "file type" = false := by
    rw [← Bool.not_eq_true, contains_iff]
    exact not_fileType h
  have hne : s.addresses.addressesText 16 ++ ' ' :: s.names ≠ [] := by simp
  have his : Runner.Gdb.find (s.addresses.addressesText 16 ++ ' ' :: s.names) "is " =
      some ("is ".toList ++ s.names) := by
    rw [Section.find_is, findFirst_of_isPrefixOf ⟨s.names, by simp⟩]
    simp
  have hdrop : ("is ".toList ++ s.names).drop 3 = s.names := rfl
  have hdropIn : ("in ".toList ++ s.name).drop 3 = s.name := rfl
  simp only [parseLine, hmain, Bool.not_true, Bool.false_eq_true, if_false, hfileType, trim_line h,
    hne, his, hdrop, find_in h, hdropIn, Section.stoull16_start, Section.stoull16_stop,
    takeWhile_names]
  rfl

end Shown

/-! ### The whole answer -/

theorem foldlM_lines {shown : List Shown} (h : ∀ s ∈ shown, s.Readable)
    {split : Line → Line × Line} {p : InfoFilesParser} (hmain : p.reachedMainPart = true) :
    (shown.map fun s => s.line ++ ['\r']).foldlM (parseLine split) p =
      some { p with loadedFiles := p.loadedFiles ++ shown.map (Shown.information split) } := by
  induction shown generalizing p with
  | nil => simp
  | cons s shown ih =>
    rw [List.forall_mem_cons] at h
    have hrest := @ih h.2
      { p with loadedFiles := p.loadedFiles ++ [s.information split] } hmain
    rw [List.map_cons, List.foldlM_cons, Shown.parseLine_line h.1 hmain, Option.bind_eq_bind,
      Option.bind_some, hrest, List.map_cons, List.append_assoc, List.singleton_append]

/-- What the lines of an answer are to the runner. -/
def text (lines : List Line) : Line := ['\n'].intercalate (printed lines)

theorem splitString_text {lines : List Line} (hne : lines ≠ [])
    (h : ∀ line ∈ lines, '\n' ∉ line ++ ['\r']) :
    splitString (text lines) ['\n'] = printed lines := by
  rw [splitString_singleton, text, List.splitOn_intercalate]
  · exact List.forall_mem_map.mpr h
  · simpa [printed] using hne

end Fluffi.Kfuzz
