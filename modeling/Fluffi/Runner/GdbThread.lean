import Fluffi.Runner.TestExecutor
import Fluffi.Shared.Evaluation
import Fluffi.Systems.Run

/-! The debugger thread of `TestExecutorGDB`: `gdbDebug` with the functions it
calls, as steps of one thread. Between any two steps GDB may print a line, the
runner may ask for another coverage state, or the end may be requested. A line
that is read is recorded together with whether it was given to `handleSignal`. -/

namespace Fluffi.Runner.Gdb

open Shared PROCESS_TERMINATION_TYPE

/-! ### Lines -/

abbrev Line := List Char

/-- The rest of the line from the first place the text is found at. -/
def find (line : Line) (text : String) : Option Line :=
  line.tails.find? fun rest => text.toList.isPrefixOf rest

def contains (line : Line) (text : String) : Bool := (find line text).isSome

def isBlank (line : Line) : Bool := line.all " \t\x0c\x0b\n\r".toList.contains

def isSignalMessage (line : Line) : Bool := line.take 23 == "Program received signal".toList

/-- `none` where `substr` throws. -/
def signalName (signalmessage : Line) : Option Line :=
  if signalmessage.length < 24 then none
  else match signalmessage.idxOf? ',' with
    | some pos =>
      some (if pos < 24 then signalmessage.drop 24 else (signalmessage.drop 24).take (pos - 24))
    | none => some ((signalmessage.drop 24).take 9)

def isSIGTRAP (signalName : Line) : Bool := signalName.take 7 == "SIGTRAP".toList

def isAddressLine (line : Line) : Bool := line.take 2 == "0x".toList

def hexDigit (c : Char) : Option ℕ :=
  if '0' ≤ c ∧ c ≤ '9' then some (c.toNat - '0'.toNat)
  else if 'a' ≤ c ∧ c ≤ 'f' then some (c.toNat - 'a'.toNat + 10)
  else if 'A' ≤ c ∧ c ≤ 'F' then some (c.toNat - 'A'.toNat + 10)
  else none

/-- The leading hexadecimal digits, and whether there are any. -/
def hexDigits : Line → ℕ → Bool → Option ℕ
  | [], n, any => if any then some n else none
  | c :: line, n, any =>
    match hexDigit c with
    | some d => hexDigits line (16 * n + d) true
    | none => if any then some n else none

/-- A number in base sixteen with an optional `0x`; a lone `0x` reads as zero. -/
def hexNumber (line : Line) : Option ℕ :=
  match line with
  | '0' :: 'x' :: rest => some ((hexDigits rest 0 false).getD 0)
  | '0' :: 'X' :: rest => some ((hexDigits rest 0 false).getD 0)
  | _ => hexDigits line 0 false

/-- `std::stoull` on a line that starts with `0x`; `none` where it throws. -/
def stoull (line : Line) : Option UInt64 :=
  (hexNumber line).bind fun n => if n < 2 ^ 64 then some (UInt64.ofNat n) else none

/-- `std::stoi` in base sixteen, zero where it throws. -/
def stoi (line : Line) : ℤ :=
  let line := line.dropWhile " \t\x0c\x0b\n\r".toList.contains
  let value : Option ℤ := match line with
    | '-' :: rest => (hexNumber rest).map fun n => -(n : ℤ)
    | '+' :: rest => (hexNumber rest).map fun n => (n : ℤ)
    | _ => (hexNumber line).map fun n => (n : ℤ)
  match value with
  | some v => if -2 ^ 31 ≤ v ∧ v < 2 ^ 31 then v else 0
  | none => 0

/-! ### Breakpoints and commands -/

structure GDBBreakpoint where
  m_absoluteAdress : UInt64
  m_originalBytes : UInt32
  m_fbb : FluffiBasicBlock
  m_isEnabled : Bool
  deriving DecidableEq

/-- The numbers of bytes that the setup accepts for the breakpoint instruction. -/
inductive BpInstrBytes where
  | one
  | two
  | four
  deriving DecidableEq, Repr

def BpInstrBytes.count : BpInstrBytes → UInt64
  | one => 1
  | two => 2
  | four => 4

/-- What is written to GDB. `set` has the type `unsigned char`, `short` or `int`. -/
inductive GDBCommand where
  | set (bytes : BpInstrBytes) (address : UInt64) (value : UInt32)
  | jump (address : UInt64)
  | c
  | infoFiles
  | fluffi
  deriving DecidableEq

/-- A byte of a value, the lowest one first as on x86 and ARM. -/
def byteOf (value : UInt32) (offset : UInt64) : UInt8 :=
  (value >>> (8 * offset.toUInt32)).toUInt8

/-- The byte that a command writes to an address. -/
def GDBCommand.byteAt (address : UInt64) : GDBCommand → Option UInt8
  | set bytes a value =>
    if address - a < bytes.count then some (byteOf value (address - a)) else none
  | _ => none

/-- The byte that was last written to an address; the latest command comes first. -/
def lastWritten (address : UInt64) (commands : List GDBCommand) : Option UInt8 :=
  commands.findSome? (GDBCommand.byteAt address)

/-- The breakpoint of a signal address, which may be one byte behind. -/
def breakpointAt (allBreakpoints : List GDBBreakpoint) (signalAddress : UInt64) :
    Option GDBBreakpoint :=
  match allBreakpoints.find? fun bp => bp.m_absoluteAdress == signalAddress with
  | some bp => some bp
  | none => allBreakpoints.find? fun bp => bp.m_absoluteAdress == signalAddress - 1

def disable (address : UInt64) (allBreakpoints : List GDBBreakpoint) : List GDBBreakpoint :=
  allBreakpoints.map fun bp =>
    if bp.m_absoluteAdress = address then { bp with m_isEnabled := false } else bp

/-- The command, and the breakpoints with every flag set. -/
def generateEnableAllCommand (allBreakpoints : List GDBBreakpoint) (bpInstr : UInt32)
    (bpInstrBytes : BpInstrBytes) : List GDBCommand × List GDBBreakpoint :=
  ((allBreakpoints.filter fun bp => !bp.m_isEnabled).map fun bp =>
      .set bpInstrBytes bp.m_absoluteAdress bpInstr,
    allBreakpoints.map fun bp => { bp with m_isEnabled := true })

/-! ### The thread -/

inductive COVERAGE_STATE where
  | SHOULD_RESET_HARD
  | SHOULD_RESET_SOFT
  | RESETTED
  | SHOULD_DUMP
  | DUMPED
  deriving DecidableEq, Repr

/-- Where the thread is. A queue is consumed in the main loop (`none`) or because
there was a leftover before an enable-all command (`some`). -/
inductive Place where
  | wait
  | consume (leftoverOf : Option (List GDBCommand))
  | address (leftoverOf : Option (List GDBCommand)) (signalName : Line)
  | infoFiles (leftoverOf : Option (List GDBCommand)) (signalName : Line) (address : UInt64)
  | infoAnswer (leftoverOf : Option (List GDBCommand)) (signalName : Line) (address : UInt64)
      (response : List Line)
  | cover
  | send (enableAllCommand : List GDBCommand)
  | answer
  | returned
  deriving DecidableEq

structure GDBThread where
  m_gdbOutputQueue : List Line
  m_gdbThreadShouldTerminate : Bool
  m_coverageState : COVERAGE_STATE
  m_exOutput : DebugExecutionOutput
  m_exitStatus : ℤ
  coveredBasicBlocks : List FluffiBasicBlock
  allBreakpoints : List GDBBreakpoint
  blocksCoveredSinceLastReset : List FluffiBasicBlock
  toGdb : List GDBCommand
  place : Place
  read : List (Line × Bool)

namespace GDBThread

/-- Leave `gdbDebug` with an error. -/
def fail (s : GDBThread) (description : String) : GDBThread :=
  { s with
    place := .returned
    m_exOutput := { s.m_exOutput with
      m_terminationType := ERR
      m_terminationDescription := description } }

/-- `handleSignal` failed in `consumeGDBOutputQueue`. -/
def signalFailed (s : GDBThread) : GDBThread :=
  s.fail "consumeGDBOutputQueue: Failed to handle a signal"

/-- One line of `consumeGDBOutputQueue`. -/
def consumeLine (s : GDBThread) (leftoverOf : Option (List GDBCommand)) (line : Line) :
    GDBThread :=
  if isBlank line then { s with read := s.read ++ [(line, false)] }
  else if isSignalMessage line then
    let s := { s with read := s.read ++ [(line, true)] }
    match signalName line with
    | some name => { s with place := .address leftoverOf name }
    | none => { s with place := .returned }
  else
    let s := { s with read := s.read ++ [(line, false)] }
    if contains line "exited with code" ||
        line.take 24 == "Program exited normally.".toList then
      let exitCode := match find line "exited with code" with
        | some rest => stoi (rest.drop 17)
        | none => 0
      let description := if s.m_exOutput.m_terminationType = CLEAN then
          "Process terminated normally: " ++ toString exitCode
        else s.m_exOutput.m_terminationDescription
      { s with
        m_exitStatus := exitCode
        m_exOutput := { s.m_exOutput with m_terminationDescription := description }
        place := .returned }
    else s

/-- The address line of a signal: a breakpoint of ours is taken out and the
target continues at its address; another signal is looked up first. A number
that cannot be parsed ends the process. -/
def handleAddress (bpInstrBytes : BpInstrBytes) (s : GDBThread)
    (leftoverOf : Option (List GDBCommand)) (name : Line) (addressLine : Line) : GDBThread :=
  let s := { s with read := s.read ++ [(addressLine, false)] }
  match stoull addressLine with
  | none => { s with place := .returned }
  | some signalAddress =>
    match (if isSIGTRAP name then breakpointAt s.allBreakpoints signalAddress else none) with
    | some gdbb => { s with
        blocksCoveredSinceLastReset := s.blocksCoveredSinceLastReset.insert gdbb.m_fbb
        allBreakpoints := disable gdbb.m_absoluteAdress s.allBreakpoints
        toGdb := .jump gdbb.m_absoluteAdress ::
          .set bpInstrBytes gdbb.m_absoluteAdress gdbb.m_originalBytes :: s.toGdb
        place := .consume leftoverOf }
    | none => { s with place := .infoFiles leftoverOf name signalAddress }

/-- The end of `handleSignal` for a crash. -/
def handleCrash (s : GDBThread) (name : Line) (crashRVA : String) : GDBThread :=
  if s.m_exOutput.m_firstCrash = "" then
    { s with
      m_exOutput := { s.m_exOutput with m_firstCrash := crashRVA, m_lastCrash := crashRVA }
      toGdb := .c :: s.toGdb }
  else if s.m_exOutput.m_lastCrash = crashRVA then
    let (type, description) :=
      if name.take 7 == "SIGSEGV".toList then
        (EXCEPTION_ACCESSVIOLATION, "Detected an EXCEPTION_ACCESS_VIOLATION")
      else (EXCEPTION_OTHER, "Detected an Unhandled signal: " ++ String.ofList name)
    { s with
      m_exOutput := { s.m_exOutput with
        m_terminationType := type
        m_terminationDescription := description }
      m_gdbThreadShouldTerminate := true }
  else
    { s with
      m_exOutput := { s.m_exOutput with m_lastCrash := crashRVA }
      toGdb := .c :: s.toGdb }

/-- The switch over the coverage state. -/
def cover (bpInstr : UInt32) (bpInstrBytes : BpInstrBytes) (s : GDBThread) : GDBThread :=
  match s.m_coverageState with
  | .SHOULD_RESET_HARD =>
    let generated := generateEnableAllCommand s.allBreakpoints bpInstr bpInstrBytes
    { s with allBreakpoints := generated.2, place := .send generated.1, read := [] }
  | .SHOULD_RESET_SOFT =>
    { s with
      blocksCoveredSinceLastReset := []
      m_coverageState := .RESETTED
      place := .wait }
  | .SHOULD_DUMP =>
    { s with
      coveredBasicBlocks := s.blocksCoveredSinceLastReset
      m_coverageState := .DUMPED
      place := .wait }
  | _ => { s with place := .wait }

/-- The end of a hard reset. -/
def resetted (s : GDBThread) : GDBThread :=
  { s with
    blocksCoveredSinceLastReset := []
    toGdb := .c :: s.toGdb
    m_coverageState := .RESETTED
    place := .wait }

/-- The next step of the thread; `none` while it waits. `crashRVA` stands for
reading the modules and their addresses out of the answer to `info files`. -/
def step (bpInstr : UInt32) (bpInstrBytes : BpInstrBytes)
    (crashRVA : List Line → UInt64 → Option String) (s : GDBThread) : Option GDBThread :=
  match s.place with
  | .wait =>
    if s.m_gdbThreadShouldTerminate then some { s with place := .returned }
    else if s.m_gdbOutputQueue = [] ∧ (s.m_coverageState = .RESETTED ∨
        s.m_coverageState = .DUMPED) then none
    else some { s with place := .consume none }
  | .consume leftoverOf =>
    match s.m_gdbOutputQueue with
    | [] => match leftoverOf with
      | none => some { s with place := .cover }
      | some command => some { s with place := .send command }
    | line :: queue => some (({ s with m_gdbOutputQueue := queue }).consumeLine leftoverOf line)
  | .address leftoverOf name =>
    match s.m_gdbOutputQueue with
    | [] => if s.m_gdbThreadShouldTerminate then some s.signalFailed else none
    | line :: queue =>
      let s := { s with m_gdbOutputQueue := queue }
      if isAddressLine line then some (s.handleAddress bpInstrBytes leftoverOf name line)
      else some { s with read := s.read ++ [(line, false)] }
  | .infoFiles leftoverOf name address =>
    if s.m_gdbOutputQueue ≠ [] ∨ s.m_gdbThreadShouldTerminate then some s.signalFailed
    else some { s with
      toGdb := .fluffi :: .infoFiles :: s.toGdb
      place := .infoAnswer leftoverOf name address [] }
  | .infoAnswer leftoverOf name address response =>
    match s.m_gdbOutputQueue with
    | [] => if s.m_gdbThreadShouldTerminate then some s.signalFailed else none
    | line :: queue =>
      let s := { s with m_gdbOutputQueue := queue, read := s.read ++ [(line, false)] }
      if contains line "Undefined command" then
        match crashRVA response address with
        | some rva => some { s.handleCrash name rva with place := .consume leftoverOf }
        | none => some s.signalFailed
      else some { s with place := .infoAnswer leftoverOf name address (response ++ [line]) }
  | .cover => some (s.cover bpInstr bpInstrBytes)
  | .send enableAllCommand =>
    if enableAllCommand = [] then some s.resetted
    else if s.m_gdbOutputQueue ≠ [] then
      some { s with place := .consume (some enableAllCommand) }
    else if s.m_gdbThreadShouldTerminate then
      some (s.fail "gdbDebug: Failed enabling all breakpoints")
    else some { s with
      toGdb := .fluffi :: (enableAllCommand.reverse ++ s.toGdb)
      place := .answer }
  | .answer =>
    match s.m_gdbOutputQueue with
    | [] =>
      if s.m_gdbThreadShouldTerminate then
        some (s.fail "gdbDebug: Failed enabling all breakpoints")
      else none
    | line :: queue =>
      let s := { s with m_gdbOutputQueue := queue, read := s.read ++ [(line, false)] }
      if contains line "Undefined command" then some s.resetted else some s
  | .returned => none

end GDBThread

/-- What happens next: GDB prints a line, the end is requested, the runner asks
for a coverage state, the thread takes a step, or it notices, between two lines
of an answer, that it should end. -/
inductive Event where
  | line (line : Line)
  | terminate
  | setCoverageState (state : COVERAGE_STATE)
  | step
  | interrupted

def next (bpInstr : UInt32) (bpInstrBytes : BpInstrBytes)
    (crashRVA : List Line → UInt64 → Option String) (s : GDBThread) : Event → Option GDBThread
  | .line line => some { s with m_gdbOutputQueue := s.m_gdbOutputQueue ++ [line] }
  | .terminate => some { s with m_gdbThreadShouldTerminate := true }
  | .setCoverageState state => some { s with m_coverageState := state }
  | .step => s.step bpInstr bpInstrBytes crashRVA
  | .interrupted =>
    if s.m_gdbThreadShouldTerminate then
      match s.place with
      | .answer => some (s.fail "gdbDebug: Failed enabling all breakpoints")
      | .infoAnswer _ _ _ _ => some s.signalFailed
      | _ => none
    else none

/-- `gdbDebug` after `gdbPrepareForDebug`: no breakpoint is enabled yet. -/
structure Start (s : GDBThread) : Prop where
  place : s.place = .wait
  disabled : ∀ bp ∈ s.allBreakpoints, bp.m_isEnabled = false
  read : s.read = []

end Fluffi.Runner.Gdb
