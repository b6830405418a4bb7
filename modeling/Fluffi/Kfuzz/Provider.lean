import Fluffi.Kfuzz.MemoryCommands
import Fluffi.Runner.Dialogue
import Fluffi.SharedMem.Mailbox

/-! What stands in for GDB on Windows: an emulator that forwards each line it reads to a debugger
extension, and prints the response. The extension answers from the target, which is halted. Both
messages go through a mailbox, and the emulator does not wait for ever. -/

namespace Fluffi.Kfuzz

open Fluffi.Runner.Gdb (Line hexText addressText endsResponse fluffi)
open Fluffi.Systems

/-! ### The target -/

/-- `IMAGE_SECTION_HEADER` -/
structure SectionHeader where
  Name : Line
  VirtualAddress : UInt32
  VirtualSize : UInt32
  Name_length : Name.length = 8

/-- `DEBUG_MODULE_PARAMETERS`, with the name and what the headers in the image say. -/
structure LoadedModule where
  Base : UInt64
  Size : UInt32
  name : Line
  sections : List SectionHeader

/-- A register that the debugger describes; its name fits the column for it. -/
structure Register where
  name : Line
  I64 : UInt64
  name_length : name.length ≤ 15

/-- A target that is halted. A process has an id, a kernel may have none. -/
structure Target where
  modules : List LoadedModule
  processId : Option UInt32
  registers : List Register
  memory : CyclicMemory
  modules_ne_nil : modules ≠ []
  registers_ne_nil : registers ≠ []

namespace Target

/-! ### The answers -/

/-- The registers up to `gs`. -/
def shownRegisters : List Register → List Register
  | [] => []
  | r :: registers => if r.name = "gs".toList then [r] else r :: shownRegisters registers

def registerLine (r : Register) : Line :=
  r.name ++ List.replicate (15 - r.name.length) ' ' ++ "0x".toList ++ hexText r.I64.toNat ++
    "   ".toList ++ Nat.toDigits 10 r.I64.toNat

def handleIR (t : Target) : List Line := (shownRegisters t.registers).map registerLine

/-- `segnameString` -/
def segname (s : SectionHeader) : Line := s.Name.map fun c => if c = '\x00' then ' ' else c

def rangeLine (start stop : UInt64) (segname name : Line) : Line :=
  "        ".toList ++ addressText 16 start ++ " - ".toList ++ addressText 16 stop ++
    " is ".toList ++ segname ++ " in ".toList ++ name

/-- A module is shown as a section `.base`, and its sections follow. -/
def moduleLines (m : LoadedModule) : List Line :=
  rangeLine m.Base (m.Base + m.Size.toUInt64) ".base   ".toList m.name ::
    m.sections.map fun s => rangeLine (m.Base + s.VirtualAddress.toUInt64)
      (m.Base + s.VirtualAddress.toUInt64 + s.VirtualSize.toUInt64) (segname s) m.name

/-- `info files` -/
def infoFiles (t : Target) : List Line :=
  "Local exec file:".toList :: t.modules.flatMap moduleLines

def mainName (t : Target) : Line := (t.modules.head t.modules_ne_nil).name

/-- Zero for a kernel, and where the id is no `int`. -/
def systemID (t : Target) : ℕ :=
  if ".sys".toList.isSuffixOf t.mainName then 0
  else
    let systemID := (t.processId.getD 0).toNat
    if systemID < 2 ^ 31 then systemID else 0

/-- `info inferior` -/
def infoInferior (t : Target) : List Line :=
  ["  Num  Description       Executable".toList,
    "* 1    process ".toList ++ Nat.toDigits 10 t.systemID ++ "     ".toList ++ t.mainName]

def handleInfo (t : Target) (command : Line) : List Line :=
  if command = "info inferior".toList then t.infoInferior
  else if command = "info files".toList then t.infoFiles
  else ["info command \"".toList ++ command ++ "\" is not implemented".toList]

/-- The commands that GDB needs, but not this debugger. -/
def isIgnored (command : Line) : Bool :=
  command == "br *0x0".toList || command == "set".toList || "d br ".toList.isPrefixOf command

/-- The lines of the response; `none` where a loop does not end, and where the target goes on. -/
def processMessage (t : Target) (command : Line) : Option (List Line × Target) :=
  if "set \x7b".toList.isPrefixOf command then
    (handleSet 1 command t.memory).map fun (response, memory) =>
      (response.splitOn '\n', { t with memory := memory })
  else if "x/1".toList.isPrefixOf command then some ([handleX command t.memory], t)
  else if "j ".toList.isPrefixOf command || command == "c".toList ||
      command == "ctrl+c".toList then none
  else if command = "i r".toList then some (t.handleIR, t)
  else if "info ".toList.isPrefixOf command then some (t.handleInfo command, t)
  else if isIgnored command then
    some (["Command \"".toList ++ command ++ "\" will be ignored, as this is only a hack ".toList ++
      "to handle GDB quirks.".toList], t)
  else some (["ERROR! Command \"".toList ++ command ++ "\" is not implemented".toList], t)

end Target

/-! ### The emulator -/

/-- `kfuzz_windbg_request_response`, wherever it is mapped. -/
def requestIPC : SharedMem.SharedMemIPC := ⟨0, 1 * 1024 * 1024, by decide⟩

/-- Whether a message is placed. -/
def Fits (message : Line) : Prop := message = [] ∨ message.length < requestIPC.capacity

instance (message : Line) : Decidable (Fits message) := inferInstanceAs (Decidable (_ ∨ _))

/-- The target is halted, and the response to the line before may still be on its way; or
something else is the case, of which nothing is said here. -/
inductive Emulator where
  | halted (target : Target)
  | late (response : List Line) (target : Target)
  | other

/-- The line ends of Windows. -/
def printed (lines : List Line) : List Line := lines.map (· ++ ['\r'])

def couldNotForward (command : Line) : List Line :=
  ["ERROR: Could not forward a command to WinDbg, or WinDbg did not respond in time for ".toList ++
    "command \"".toList ++ command ++ "\"".toList]

section Emulator

variable (inTime : Target → Line → Bool) (otherwise : Line → List Line)

/-- `inTime` is whether a response comes within `timeoutMilliseconds`. A response that is too large
never comes; one that is late is taken for that to the next command. -/
def sendCommandToWinDbgAndGetResponse (e : Emulator) (command : Line) :
    Option (List Line × Emulator) :=
  match e with
  | .other => none
  | .halted t =>
    if ¬ Fits command then some (couldNotForward command, .halted t)
    else (t.processMessage command).map fun (response, t') =>
      if ¬ Fits (['\n'].intercalate response) then (couldNotForward command, .halted t')
      else if inTime t command then (response, .halted t')
      else (couldNotForward command, .late response t')
  | .late before t =>
    if ¬ Fits command then some (couldNotForward command, .late before t)
    else (t.processMessage command).map fun (response, t') =>
      if ¬ inTime t command then (couldNotForward command, .other)
      else if ¬ Fits (['\n'].intercalate response) then (before, .halted t')
      else (before, .late response t')

/-- A turn of `handleConsoleCommands`. -/
def handleConsoleCommand (e : Emulator) (command : Line) : List Line × Emulator :=
  if command = [] then ([], e)
  else if command = fluffi then (printed ["Undefined command".toList], e)
  else if command = "help".toList ∨ command = "quit".toList then (otherwise command, .other)
  else match sendCommandToWinDbgAndGetResponse inTime e command with
    | some (response, e) => (printed response, e)
    | none => (otherwise command, .other)

end Emulator

variable {inTime : Target → Line → Bool} {otherwise : Line → List Line}

end Fluffi.Kfuzz
