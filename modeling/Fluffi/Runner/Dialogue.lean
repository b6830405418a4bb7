import Fluffi.Runner.GdbThread
import Fluffi.Systems.LineStreams
import Fluffi.Systems.Replies

/-! Commands for GDB and its responses, from the start of GDB to the main loop. GDB does not say
where a response ends, so behind each command comes `fluffi`, which it does not know, and its
complaint is taken for the end. The writer, GDB and the line reader go on in any order. -/

namespace Fluffi.Runner.Gdb

open Systems LineStream

def fluffi : Line := "fluffi".toList

/-- What is written behind a command. -/
def ending : Line := '\n' :: fluffi ++ ['\n']

def endsResponse (line : Line) : Bool := contains line "Undefined command"

/-- Where `sendCommandToGDBAndWaitForResponse` is: between two calls, writing, or reading. A call
that finds a line in the queue fails, and at the start the queue is cleared because of it. -/
inductive Conversing where
  | idle
  | sending (written rest : Line)
  | waiting (responseSS : List Line)
  | leftover
  | LEFTOVER
  | INTERRUPTED
  deriving DecidableEq

/-- What GDB prints stands in `output` line by line, as the line reader will queue it. -/
structure Dialogue (G : Type*) where
  gdb : G
  m_ostreamToGdb : Line
  output : List Line
  m_gdbOutputQueue : List Line
  m_gdbThreadShouldTerminate : Bool
  place : Conversing
  /-- The commands that are written, each with `fluffi` behind it. -/
  sent : List Line
  /-- The lines of each response that was returned. -/
  responses : List (List Line)
  /-- How many lines were cleared at the start. -/
  skipped : ℕ

namespace Dialogue

variable {G : Type*}

inductive Event where
  | call (command : Line)
  | write
  | gdb
  | queue
  | pop
  | terminate
  | interrupt
  | clear
  deriving DecidableEq

/-- From one check of the loop over the chunks to the next. -/
def write (s : Dialogue G) (written rest : Line) : Dialogue G :=
  if s.m_gdbThreadShouldTerminate then { s with place := .INTERRUPTED }
  else
    let written := written ++ rest.take 1000
    if rest.drop 1000 = [] then
      { s with
        m_ostreamToGdb := s.m_ostreamToGdb ++ rest.take 1000 ++ ending
        place := .waiting []
        sent := s.sent ++ [written] }
    else
      { s with
        m_ostreamToGdb := s.m_ostreamToGdb ++ rest.take 1000
        place := .sending written (rest.drop 1000) }

/-- The start of a call. -/
def call (s : Dialogue G) (command : Line) : Dialogue G :=
  if command = [] then s
  else if s.m_gdbOutputQueue ≠ [] then
    { s with place := if s.responses = [] then .leftover else .LEFTOVER }
  else { s with place := .sending [] command }

def pop (s : Dialogue G) (responseSS : List Line) (line : Line) (queue : List Line) :
    Dialogue G :=
  if endsResponse line then
    { s with
      m_gdbOutputQueue := queue
      place := .idle
      responses := s.responses ++ [responseSS] }
  else { s with m_gdbOutputQueue := queue, place := .waiting (responseSS ++ [line]) }

variable (answer : G → Line → List Line × G)

/-- GDB answers a line. -/
def step (s : Dialogue G) (line rest : Line) : Dialogue G :=
  { s with
    gdb := (answer s.gdb line).2
    m_ostreamToGdb := rest
    output := s.output ++ (answer s.gdb line).1 }

def next (s : Dialogue G) : Event → Option (Dialogue G)
  | .call command => match s.place with
    | .idle => some (s.call command)
    | _ => none
  | .write => match s.place with
    | .sending written rest => some (s.write written rest)
    | _ => none
  | .gdb => match s.m_ostreamToGdb.dropWhile (· ≠ '\n') with
    | [] => none
    | _ :: rest => some (s.step answer (s.m_ostreamToGdb.takeWhile (· ≠ '\n')) rest)
  | .queue => match s.output with
    | [] => none
    | line :: output =>
      some { s with output := output, m_gdbOutputQueue := s.m_gdbOutputQueue ++ [line] }
  | .pop => match s.place, s.m_gdbOutputQueue with
    | .waiting responseSS, line :: queue => some (s.pop responseSS line queue)
    | _, _ => none
  | .terminate => some { s with m_gdbThreadShouldTerminate := true }
  | .interrupt => match s.place with
    | .waiting _ =>
      if s.m_gdbThreadShouldTerminate then some { s with place := .INTERRUPTED } else none
    | _ => none
  | .clear => match s.place with
    | .leftover => some { s with
        m_gdbOutputQueue := []
        place := .idle
        skipped := s.skipped + s.m_gdbOutputQueue.length }
    | _ => none

/-- GDB was started: commands of the init file may be on their way, and lines may be printed. -/
structure Start (s : Dialogue G) : Prop where
  place : s.place = .idle
  queue : s.m_gdbOutputQueue = []
  sent : s.sent = []
  responses : s.responses = []
  skipped : s.skipped = 0

/-- What GDB prints for each of the commands. -/
def replies : G → List Line → List (List Line)
  | _, [] => []
  | g, command :: commands =>
    outputs answer g (command.splitOn '\n') ::
      replies (stateAfter answer g (command.splitOn '\n' ++ [fluffi])) commands

/-- The responses that are due to the commands: the first one comes with all that GDB was still
to print from the start, as far as it was not cleared. -/
def due (start s : Dialogue G) : List (List Line) :=
  match s.sent with
  | [] => []
  | command :: commands =>
    match replies answer start.gdb ((start.m_ostreamToGdb ++ command) :: commands) with
    | [] => []
    | first :: others => (start.output ++ first).drop s.skipped :: others

/-! ### What is read -/

variable {answer} {start s t : Dialogue G} {e : Event}

/-- The lines of a text that are ended. -/
def ended (text : Line) : List Line := (text.splitOn '\n').dropLast

theorem eq_newline_of_dropWhile {text rest : Line} {c : Char}
    (h : text.dropWhile (· ≠ '\n') = c :: rest) : c = '\n' := by
  have hhead := List.head?_dropWhile_not (· ≠ '\n') text
  rw [h] at hhead
  simpa using hhead

theorem ended_joined_append {lines : List Line} (h : ∀ line ∈ lines, '\n' ∉ line) (rest : Line) :
    ended (joined '\n' lines ++ rest) = lines ++ ended rest := by
  rw [ended, splitOn_joined_append h,
    List.dropLast_append_of_ne_nil (List.splitOn_ne_nil '\n' rest), ended]

theorem ended_append_ending (command rest : Line) :
    ended (command ++ ending ++ rest) = command.splitOn '\n' ++ fluffi :: ended rest := by
  have hsplit : command ++ ending ++ rest = command ++ '\n' :: (fluffi ++ '\n' :: rest) := by
    simp [ending]
  have hfluffi : '\n' ∉ fluffi := by decide
  rw [ended, hsplit, List.splitOn_append_cons_self,
    List.splitOn_append_cons_self_of_not_mem hfluffi, List.dropLast_append_of_ne_nil (by simp),
    List.dropLast_cons_of_ne_nil (List.splitOn_ne_nil '\n' rest), ended]

theorem ended_commands (commands : List Line) (rest : Line) :
    ended (commands.flatMap (· ++ ending) ++ rest) =
      commands.flatMap (fun command => command.splitOn '\n' ++ [fluffi]) ++ ended rest := by
  induction commands with
  | nil => rfl
  | cons command commands ih =>
    rw [List.flatMap_cons, List.append_assoc, ended_append_ending, ih, List.flatMap_cons]
    simp only [List.append_assoc, List.cons_append, List.nil_append]

theorem length_replies (g : G) (commands : List Line) :
    (replies answer g commands).length = commands.length := by
  induction commands generalizing g with
  | nil => rfl
  | cons command commands ih => rw [replies, List.length_cons, List.length_cons, ih]

/-- GDB does not know `fluffi`, and says so in one line. -/
def Complains (answer : G → Line → List Line × G) : Prop :=
  ∀ g, ∃ line, (answer g fluffi).1 = [line] ∧ endsResponse line = true

/-- All that GDB prints for some commands is their replies, each with the line behind it. -/
theorem outputs_commands (hfluffi : Complains answer) (g : G) (commands : List Line) :
    ∃ rs : List (List Line × Line), rs.map (·.1) = replies answer g commands ∧
      (∀ r ∈ rs, endsResponse r.2 = true) ∧
      outputs answer g (commands.flatMap fun command => command.splitOn '\n' ++ [fluffi]) =
        Systems.ended rs := by
  induction commands generalizing g with
  | nil => exact ⟨[], rfl, by simp, rfl⟩
  | cons command commands ih =>
    obtain ⟨line, hline, hends⟩ := hfluffi (stateAfter answer g (command.splitOn '\n'))
    obtain ⟨rs, hmap, hrs, hout⟩ := ih (stateAfter answer g (command.splitOn '\n' ++ [fluffi]))
    refine ⟨(outputs answer g (command.splitOn '\n'), line) :: rs, ?_, ?_, ?_⟩
    · rw [List.map_cons, hmap, replies]
    · exact List.forall_mem_cons.mpr ⟨hends, hrs⟩
    · rw [List.flatMap_cons, outputs_append, hout, outputs_append, outputs_singleton, hline,
        Systems.ended, Systems.ended, List.flatMap_cons]

end Dialogue

end Fluffi.Runner.Gdb
