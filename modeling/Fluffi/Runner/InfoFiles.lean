import Fluffi.Runner.GdbText
import Fluffi.Shared.Paths
import Fluffi.Shared.Strings
import Mathlib.Algebra.Group.Int.Defs

/-! The answer of GDB to `info files`. `parseInfoFiles` looks for fixed pieces of text from
the left: the line that names the main file by `file type`, a section by `is `, its file by
`in `. File names are arbitrary text, so a piece may also stand in a name. -/

namespace Fluffi.Runner.Gdb

open Shared Systems

/-- `tModuleInformation` -/
structure ModuleInformation where
  start : UInt64
  stop : UInt64
  name : Line
  segmentName : Line
  path : Line
  deriving DecidableEq

structure InfoFilesParser where
  reachedMainPart : Bool
  procName : Line
  procPath : Line
  loadedFiles : List ModuleInformation
  deriving DecidableEq

namespace InfoFilesParser

def init : InfoFilesParser := ⟨false, [], [], []⟩

/-- The text between the first backquote and the first apostrophe, if both are there. An
apostrophe in front makes the length wrap around. -/
def quotedName (line : Line) : Option Line :=
  match line.idxOf? '\x60', line.idxOf? '\x27' with
  | some start, some stop =>
    some (if start < stop then (line.drop (start + 1)).take (stop - start - 1)
      else line.drop (start + 1))
  | _, _ => none

/-- The text behind the first `-`, or all of it. -/
def behindMinus (line : Line) : Line :=
  match line.idxOf? '-' with
  | some pos => line.drop (pos + 1)
  | none => line

/-- One line. `none` where a number cannot be read, which ends the process. -/
def parseLine (s : InfoFilesParser) (lineIt : Line) : Option InfoFilesParser :=
  if !s.reachedMainPart then
    if lineIt.take 5 == "Local".toList then some { s with reachedMainPart := true } else some s
  else if contains lineIt "file type" then
    match quotedName lineIt with
    | some mainPathAndName =>
      let directoryAndFilename := splitPathIntoDirectoryAndFileName mainPathAndName
      some { s with procName := directoryAndFilename.2, procPath := directoryAndFilename.1 }
    | none => some s
  else
    let trimmedLine := trim isSpace lineIt
    if trimmedLine = [] then some s
    else
      match find trimmedLine "is " with
      | none => some s
      | some fromIs => do
        let afterIs := fromIs.drop 3
        let currentSegmentName := afterIs.takeWhile (· ≠ ' ')
        let (currentPath, currentName) := match find afterIs "in " with
          | some fromIn => splitPathIntoDirectoryAndFileName (fromIn.drop 3)
          | none => (s.procPath, s.procName)
        let currentStartAddress ← stoull16 trimmedLine
        let currentEndAddress ← stoull16 (behindMinus trimmedLine)
        some { s with loadedFiles := s.loadedFiles ++ [⟨currentStartAddress, currentEndAddress,
          currentName, currentSegmentName, currentPath⟩] }

end InfoFilesParser

/-- `none` where the process ends. -/
def parseInfoFiles (infoFilesResp : Line) : Option (List ModuleInformation) :=
  ((splitString infoFilesResp ['\n']).foldlM InfoFilesParser.parseLine .init).map
    (·.loadedFiles)

/-! ### What GDB prints -/

structure Section where
  start : UInt64
  stop : UInt64
  segmentName : Line
  file : Option Line
  segmentName_word : ' ' ∉ segmentName

/-- An answer: the lines above `Local exec file:`, none of which starts as it does, the line
of the main file, the entry point if there is one, and the sections. Addresses have `width`
digits. -/
structure InfoFilesAnswer where
  above : List Line
  mainFile : Line
  fileType : Line
  entryPoint : Option UInt64
  width : ℕ
  indent : Line
  sections : List Section
  above_not_local : ∀ line ∈ above, line.take 5 ≠ "Local".toList ∧ '\n' ∉ line
  mainFile_line : '\n' ∉ mainFile
  fileType_line : '\n' ∉ fileType
  indent_blank : ∀ c ∈ indent, isSpace c = true ∧ c ≠ '\n'

/-- `hex_string_custom` -/
def addressText (width : ℕ) (address : UInt64) : Line :=
  "0x".toList ++ zeroFilled width (hexText address.toNat)

/-- The segment name and the file. -/
def Section.names (s : Section) : Line :=
  s.segmentName ++
    match s.file with
    | some file => " in ".toList ++ file
    | none => []

def Section.text (indent : Line) (width : ℕ) (s : Section) : Line :=
  indent ++ addressText width s.start ++ " - ".toList ++ addressText width s.stop ++
    " is ".toList ++ s.names

namespace InfoFilesAnswer

def mainLine (a : InfoFilesAnswer) : Line :=
  a.indent ++ '\x60' :: a.mainFile ++ "', file type ".toList ++ a.fileType ++ ".".toList

def lines (a : InfoFilesAnswer) : List Line :=
  a.above ++ ["Local exec file:".toList, a.mainLine] ++
    (a.entryPoint.toList.map fun address =>
      a.indent ++ "Entry point: 0x".toList ++ hexText address.toNat) ++
    a.sections.map (Section.text a.indent a.width)

def text (a : InfoFilesAnswer) : Line := ['\n'].intercalate a.lines

end InfoFilesAnswer

/-- The section as it was printed, with its path split; the main file's without one. -/
def Section.information (mainFile : Line) (s : Section) : ModuleInformation :=
  let directoryAndFilename := splitPathIntoDirectoryAndFileName (s.file.getD mainFile)
  ⟨s.start, s.stop, directoryAndFilename.2, s.segmentName, directoryAndFilename.1⟩

end Fluffi.Runner.Gdb
