import Fluffi.Runner.GdbThread
import Fluffi.Systems.Erasure

/-! The thread that reads the output of GDB. What a read returns is cut anywhere, so it goes to
a buffer; whole lines are taken out of it and queued without the prompts. -/

namespace Fluffi.Runner.Gdb

open Systems Relation

def prompt : Line := "(gdb) ".toList

/-- The loop that deletes the prompts of a line. -/
def deletePrompts (line : Line) : Line :=
  match _h : eraseFirst prompt line with
  | none => line
  | some erased => deletePrompts erased
termination_by line.length
decreasing_by
  obtain ⟨u, v, rfl, rfl⟩ := erases_eraseFirst _h
  have hprompt : prompt.length = 6 := rfl
  simp only [List.length_append]
  omega

/-- A read of all bytes that are there, or of fewer, or a pipe that is closed. -/
inductive PipeRead where
  | bytes (buff : Line)
  | incomplete
  | closed

structure LineReader where
  charsReadButNotReturned : Line
  m_gdbOutputQueue : List Line
  m_gdbThreadShouldTerminate : Bool

namespace LineReader

def init : LineReader := ⟨[], [], false⟩

/-- The loop over the lines in the buffer. -/
def queueLines (charsReadButNotReturned : Line) (m_gdbOutputQueue : List Line) :
    Line × List Line :=
  match _h : charsReadButNotReturned.dropWhile (· ≠ '\n') with
  | [] => (charsReadButNotReturned, m_gdbOutputQueue)
  | _ :: rest => queueLines rest
      (m_gdbOutputQueue ++ [deletePrompts (charsReadButNotReturned.takeWhile (· ≠ '\n'))])
termination_by charsReadButNotReturned.length
decreasing_by
  have hlength := (List.dropWhile_suffix (· ≠ '\n') (l := charsReadButNotReturned)).length_le
  rw [_h, List.length_cons] at hlength
  omega

/-- One turn of `gdbLinereaderThread`. -/
def read (s : LineReader) (r : PipeRead) : LineReader :=
  if s.m_gdbThreadShouldTerminate then s
  else
    match r with
    | .bytes buff =>
      let (charsReadButNotReturned, m_gdbOutputQueue) :=
        queueLines (s.charsReadButNotReturned ++ buff) s.m_gdbOutputQueue
      { s with
        charsReadButNotReturned := charsReadButNotReturned
        m_gdbOutputQueue := m_gdbOutputQueue }
    | .incomplete | .closed => { s with m_gdbThreadShouldTerminate := true }

def gdbLinereaderThread (reads : List PipeRead) : LineReader := reads.foldl read init

end LineReader

/-- The lines of a stream without their prompts, and the rest behind the last line end. -/
def Queues (stream : Line) (queue : List Line) (rest : Line) : Prop :=
  ∃ lines : List Line, stream = lines.flatMap (· ++ ['\n']) ++ rest ∧
    (∀ line ∈ lines, '\n' ∉ line) ∧ '\n' ∉ rest ∧ List.Forall₂ (ErasedTo prompt) lines queue

/-! ### Prompts -/

theorem unbordered_prompt : Unbordered prompt := by
  have hall : ∀ b ∈ prompt.inits, b ∈ prompt.tails → b = [] ∨ b = prompt := by decide
  intro b hprefix hsuffix
  exact hall b ((List.mem_inits b prompt).mpr hprefix) ((List.mem_tails b prompt).mpr hsuffix)

theorem deletePrompts_erasedTo (line : Line) : ErasedTo prompt line (deletePrompts line) := by
  induction line using deletePrompts.induct with
  | case1 line h =>
    rw [deletePrompts]
    split
    · exact ⟨.refl, eraseFirst_eq_none.mp h⟩
    · simp_all
  | case2 line erased h ih =>
    rw [deletePrompts]
    split
    · simp_all
    next erased' h' =>
      obtain rfl := Option.some.inj (h.symm.trans h')
      exact ⟨.head (erases_eraseFirst h) ih.1, ih.2⟩

/-! ### Lines -/

theorem erasedTo_lines_unique {lines queue queue' : List Line}
    (h : List.Forall₂ (ErasedTo prompt) lines queue)
    (h' : List.Forall₂ (ErasedTo prompt) lines queue') : queue = queue' := by
  induction h generalizing queue' with
  | nil =>
    cases h'
    rfl
  | cons hline _ ih =>
    cases h' with
    | cons hline' htail => rw [unbordered_prompt.erasedTo_unique hline hline', ih htail]

/-- The lines of a stream, and what it queues for them, are determined by the stream. -/
theorem Queues.unique {stream rest rest' : Line} {queue queue' : List Line}
    (h : Queues stream queue rest) (h' : Queues stream queue' rest') :
    queue = queue' ∧ rest = rest' := by
  have hsplit {lines : List Line} {rest : Line} (hlines : ∀ line ∈ lines, '\n' ∉ line)
      (hrest : '\n' ∉ rest) :
      (lines.flatMap (· ++ ['\n']) ++ rest).splitOn '\n' = lines ++ [rest] := by
    induction lines with
    | nil => exact List.splitOn_eq_singleton hrest
    | cons line lines ih =>
      rw [List.forall_mem_cons] at hlines
      rw [List.flatMap_cons, List.append_assoc, List.append_assoc, List.singleton_append,
        List.splitOn_append_cons_self_of_not_mem hlines.1, ih hlines.2]
      rfl
  obtain ⟨lines, rfl, hlines, hrest, hqueue⟩ := h
  obtain ⟨lines', hstream, hlines', hrest', hqueue'⟩ := h'
  have heq := hsplit hlines hrest
  rw [hstream, hsplit hlines' hrest'] at heq
  obtain ⟨rfl, hlast⟩ := List.append_inj' heq rfl
  exact ⟨erasedTo_lines_unique hqueue hqueue', (List.singleton_inj.mp hlast).symm⟩

theorem Queues.append {stream rest more rest' : Line} {queue queue' : List Line}
    (h : Queues stream queue rest) (h' : Queues (rest ++ more) queue' rest') :
    Queues (stream ++ more) (queue ++ queue') rest' := by
  obtain ⟨lines, rfl, hlines, -, hqueue⟩ := h
  obtain ⟨lines', hstream, hlines', hrest', hqueue'⟩ := h'
  refine ⟨lines ++ lines', ?_, List.forall_mem_append.mpr ⟨hlines, hlines'⟩, hrest',
    List.rel_append hqueue hqueue'⟩
  rw [List.append_assoc, hstream, List.flatMap_append, List.append_assoc]

namespace LineReader

theorem queueLines_queues (chars : Line) (queue : List Line) :
    ∃ more, (queueLines chars queue).2 = queue ++ more ∧
      Queues chars more (queueLines chars queue).1 := by
  induction chars, queue using queueLines.induct with
  | case1 chars queue h =>
    have hchars : '\n' ∉ chars := by
      intro hmem
      have := List.dropWhile_eq_nil_iff.mp h '\n' hmem
      simp at this
    have heq : queueLines chars queue = (chars, queue) := by
      rw [queueLines]
      split
      · rfl
      next hdrop => cases h.symm.trans hdrop
    rw [heq]
    exact ⟨[], by simp, [], by simp, by simp, hchars, .nil⟩
  | case2 chars queue c rest h ih =>
    have heq : queueLines chars queue =
        queueLines rest (queue ++ [deletePrompts (chars.takeWhile (· ≠ '\n'))]) := by
      rw [queueLines]
      split
      next hdrop => cases h.symm.trans hdrop
      next hdrop =>
        cases h.symm.trans hdrop
        rfl
    obtain ⟨more, hqueue, lines, hrest, hlines, hlast, hmore⟩ := ih
    have hc : c = '\n' := by
      have := List.head_dropWhile_not (· ≠ '\n') (l := chars) (by rw [h]; simp)
      simp only [h, List.head_cons] at this
      simpa using this
    subst hc
    refine ⟨deletePrompts (chars.takeWhile (· ≠ '\n')) :: more, ?_,
      chars.takeWhile (· ≠ '\n') :: lines, ?_, ?_, ?_, .cons (deletePrompts_erasedTo _) hmore⟩
    · rw [heq, hqueue, List.append_assoc, List.singleton_append]
    · rw [heq, List.flatMap_cons, List.append_assoc, List.append_assoc, List.singleton_append,
        ← hrest, ← h, List.takeWhile_append_dropWhile]
    · rw [List.forall_mem_cons]
      refine ⟨fun hmem => ?_, hlines⟩
      have := List.mem_takeWhile_imp hmem
      simp at this
    · rwa [heq]

theorem read_bytes {s : LineReader} {stream : Line}
    (hrunning : s.m_gdbThreadShouldTerminate = false)
    (h : Queues stream s.m_gdbOutputQueue s.charsReadButNotReturned) (buff : Line) :
    (s.read (.bytes buff)).m_gdbThreadShouldTerminate = false ∧
      Queues (stream ++ buff) (s.read (.bytes buff)).m_gdbOutputQueue
        (s.read (.bytes buff)).charsReadButNotReturned := by
  obtain ⟨more, hqueue, hmore⟩ :=
    queueLines_queues (s.charsReadButNotReturned ++ buff) s.m_gdbOutputQueue
  simp only [read, hrunning, Bool.false_eq_true, if_false, hqueue, true_and]
  exact h.append hmore

theorem gdbLinereaderThread_queues (chunks : List Line) :
    (gdbLinereaderThread (chunks.map .bytes)).m_gdbThreadShouldTerminate = false ∧
      Queues chunks.flatten (gdbLinereaderThread (chunks.map .bytes)).m_gdbOutputQueue
        (gdbLinereaderThread (chunks.map .bytes)).charsReadButNotReturned := by
  induction chunks using List.reverseRecOn with
  | nil => exact ⟨rfl, [], rfl, by simp, by simp [gdbLinereaderThread, init], .nil⟩
  | append_singleton chunks buff ih =>
    have hlast : gdbLinereaderThread ((chunks ++ [buff]).map .bytes) =
        (gdbLinereaderThread (chunks.map .bytes)).read (.bytes buff) := by
      simp [gdbLinereaderThread]
    rw [hlast, List.flatten_append, List.flatten_singleton]
    exact read_bytes ih.1 ih.2 buff

/-- However a stream is cut into reads, its lines are queued without their prompts, and the
rest is held back. -/
theorem gdbLinereaderThread_queues_iff (chunks : List Line) (queue : List Line) (rest : Line) :
    ((gdbLinereaderThread (chunks.map .bytes)).m_gdbOutputQueue = queue ∧
      (gdbLinereaderThread (chunks.map .bytes)).charsReadButNotReturned = rest) ↔
      Queues chunks.flatten queue rest := by
  have hqueues := (gdbLinereaderThread_queues chunks).2
  constructor
  · rintro ⟨rfl, rfl⟩
    exact hqueues
  · exact hqueues.unique

end LineReader

end Fluffi.Runner.Gdb
