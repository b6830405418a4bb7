import Fluffi.Kfuzz.InfoFiles
import Fluffi.Runner.BaseAddresses
import Fluffi.Runner.Calls

/-! Preparing to debug with the emulator: the calls that the runner makes, and what becomes of a
command that is forwarded. The responses are texts that the debugger extension prints and the runner
reads, one on each side of the dialogue. -/

namespace Fluffi.Kfuzz

open Fluffi.Runner.Gdb Fluffi.Shared Fluffi.Systems
open Fluffi.Runner.Gdb.Dialogue (reply)

/-! ### The runner -/

section Runner

variable {G : Type*} (answer : G → Line → List Line × G)

/-- A call whose response is in step: all lines that are printed for the command. Nothing is sent
for an empty command, and the variable for the response keeps its value. -/
def sendCommandToGDBAndWaitForResponse (g : G) (response command : Line) : Line × G :=
  if command = [] then (response, g)
  else (['\n'].intercalate (outputs answer g (command.splitOn '\n')),
    stateAfter answer g (command.splitOn '\n' ++ [fluffi]))

/-- The number behind `process`, if there is such a line; `none` where the process ends. -/
def processIDOf (resp : Line) : Option (Option ℤ) :=
  match Runner.Gdb.find resp "process" with
  | some behind => (Shared.stoi (behind.drop 7)).map some
  | none => some none

/-- The questions for the bytes of all blocks; `none` where the process ends. -/
def breakpointsToSet (baseMap : BaseMap) (bpInstrBytes : ℕ)
    (blocksToCover : List FluffiBasicBlock) : Option Line :=
  (blocksToCover.mapM fun fbb => readCommand bpInstrBytes (absAddress baseMap fbb)).map
    ['\n'].intercalate

/-- The preparation, and the id of the target's process where it was read. `none` where GDB did
not wait, so that the target is started first. -/
def gdbPrepareForDebug (splitPathIntoDirectoryAndFileName : Line → Line × Line)
    (modulesToCover : List Module) (blocksToCover : List FluffiBasicBlock) (bpInstrBytes : ℕ)
    (g : G) : Option (Preparation × Option ℤ) :=
  let (resp, g) := sendCommandToGDBAndWaitForResponse answer g [] "i r".toList
  if contains resp "no registers now" then none
  else if !contains resp "rax" && !contains resp "eax" && !contains resp "r0" then
    some (.failed, none)
  else
    let (infoFilesResp, g) := sendCommandToGDBAndWaitForResponse answer g [] "info files".toList
    match parseInfoFiles splitPathIntoDirectoryAndFileName infoFilesResp with
    | none => some (.exit, none)
    | some loadedFiles =>
      let baseMap := baseAddresses modulesToCover loadedFiles
      if baseMap.length ≠ modulesToCover.length then some (.failed, none)
      else
        let (resp, g) := sendCommandToGDBAndWaitForResponse answer g resp "info inferior".toList
        match processIDOf resp with
        | none => some (.exit, none)
        | some m_PID =>
          match breakpointsToSet baseMap bpInstrBytes blocksToCover with
          | none => some (.exit, m_PID)
          | some command =>
            let (resp, _) := sendCommandToGDBAndWaitForResponse answer g resp command
            some (readOriginalBytes baseMap blocksToCover resp, m_PID)

variable (g : G) {command : Line}

end Runner

/-! ### Commands to the emulator -/

section Emulator

variable {inTime : Target → Line → Bool} {otherwise : Line → List Line} {t : Target}
  {response command : Line} {lines before : List Line}

/-- A line that is forwarded, and answered in time. -/
structure Forwarded (inTime : Target → Line → Bool) (t : Target) (command : Line)
    (lines : List Line) : Prop where
  forwarded : command ≠ [] ∧ command ≠ fluffi ∧ command ≠ "help".toList ∧ command ≠ "quit".toList
  answered : t.processMessage command = some (lines, t)
  fit : Fits command ∧ Fits (['\n'].intercalate lines)
  inTime : inTime t command = true

theorem Forwarded.answer (h : Forwarded inTime t command lines) :
    handleConsoleCommand inTime otherwise (.halted t) command = (printed lines, .halted t) := by
  obtain ⟨hempty, hfluffi, hhelp, hquit⟩ := h.forwarded
  rw [handleConsoleCommand, if_neg hempty, if_neg hfluffi, if_neg (not_or_intro hhelp hquit)]
  simp [sendCommandToWinDbgAndGetResponse, h.answered, h.fit, h.inTime]

theorem Forwarded.answer_late (h : Forwarded inTime t command lines) :
    handleConsoleCommand inTime otherwise (.late before t) command =
      (printed before, .late lines t) := by
  obtain ⟨hempty, hfluffi, hhelp, hquit⟩ := h.forwarded
  rw [handleConsoleCommand, if_neg hempty, if_neg hfluffi, if_neg (not_or_intro hhelp hquit)]
  simp [sendCommandToWinDbgAndGetResponse, h.answered, h.fit, h.inTime]

theorem printed_append (first second : List Line) :
    printed (first ++ second) = printed first ++ printed second :=
  List.map_append

/-- Once a response is late, each command gets that to the command before, although all responses
come in time again. -/
theorem outputs_late {commands : List Line} {linesOf : Line → List Line}
    (h : ∀ command ∈ commands, Forwarded inTime t command (linesOf command)) :
    outputs (handleConsoleCommand inTime otherwise) (.late before t) commands =
      printed (before :: commands.map linesOf).dropLast.flatten := by
  induction commands generalizing before with
  | nil => rfl
  | cons command commands ih =>
    rw [List.forall_mem_cons] at h
    rw [outputs, h.1.answer_late, ih h.2, List.map_cons, List.dropLast_cons_cons, List.flatten_cons,
      printed_append]

end Emulator

end Fluffi.Kfuzz
