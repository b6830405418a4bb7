import Fluffi.Runner.Dialogue

/-! Whether responses belong to their commands. They do as long as no line of a response looks
like the end of one. -/

namespace Fluffi.Runner.Gdb

open Systems LineStream

namespace Dialogue

variable {G : Type*} {answer : G → Line → List Line × G} {start s t : Dialogue G} {e : Event}

/-! ### The invariant -/

/-- The place fits with the number of responses, with what is written of a command and with what
is read of a response. -/
def Fits (s : Dialogue G) (part : Line) (current : List Line) : Prop :=
  match s.place with
  | .idle => part = [] ∧ current = [] ∧ s.sent.length = s.responses.length
  | .sending written _ => part = written ∧ current = [] ∧ s.sent.length = s.responses.length
  | .waiting responseSS =>
    part = [] ∧ current = responseSS ∧ s.sent.length = s.responses.length + 1
  | .leftover => part = [] ∧ current = [] ∧ s.sent = [] ∧ s.responses = []
  | .LEFTOVER => part = [] ∧ current = [] ∧ s.sent.length = s.responses.length ∧
      s.responses ≠ [] ∧ s.m_gdbOutputQueue ≠ []
  | .INTERRUPTED => s.responses.length ≤ s.sent.length

theorem Fits.length_le {part : Line} {current : List Line} (h : s.Fits part current) :
    s.responses.length ≤ s.sent.length := by
  unfold Fits at h
  split at h
  · exact h.2.2.ge
  · exact h.2.2.ge
  · exact h.2.2 ▸ Nat.le_succ _
  · rw [h.2.2.2]
    exact Nat.zero_le _
  · exact h.2.2.1.ge
  · exact h

theorem Fits.queue {part : Line} {current : List Line} (h : s.Fits part current) (line : Line)
    (output : List Line) : ({ s with
      output := output
      m_gdbOutputQueue := s.m_gdbOutputQueue ++ [line] } : Dialogue G).Fits part current := by
  revert h
  unfold Fits
  dsimp only
  cases s.place with
  | LEFTOVER => exact fun h => ⟨h.1, h.2.1, h.2.2.1, h.2.2.2.1, by simp⟩
  | idle | sending | waiting | leftover | INTERRUPTED => exact id

/-- So many lines are printed before a command is sent. -/
def Early (answer : G → Line → List Line × G) (start : Dialogue G) (n : ℕ) : Prop :=
  ∃ read rest, start.m_ostreamToGdb = joined '\n' read ++ rest ∧ (∀ line ∈ read, '\n' ∉ line) ∧
    n ≤ (start.output ++ outputs answer start.gdb read).length

/-- After some lines were processed, and some were taken from the queue. -/
structure Follows (answer : G → Line → List Line × G) (start s : Dialogue G)
    (processed cleared taken : List Line) (part : Line) (current : List Line) : Prop where
  lines : ∀ line ∈ processed, '\n' ∉ line
  written : start.m_ostreamToGdb ++ s.sent.flatMap (· ++ ending) ++ part =
    joined '\n' processed ++ s.m_ostreamToGdb
  gdb : s.gdb = stateAfter answer start.gdb processed
  printed : start.output ++ outputs answer start.gdb processed =
    cleared ++ (taken ++ (s.m_gdbOutputQueue ++ s.output))
  skipped : cleared.length = s.skipped
  early : Early answer start s.skipped
  cut : Cut endsResponse taken s.responses current
  fits : s.Fits part current

/-- The lines that GDB prints for all that was written. -/
theorem Follows.stream {processed cleared taken current : List Line} {part : Line}
    (h : Follows answer start s processed cleared taken part current) :
    start.output ++ outputs answer start.gdb
        (ended (start.m_ostreamToGdb ++ s.sent.flatMap (· ++ ending) ++ part)) =
      cleared ++ (taken ++ (s.m_gdbOutputQueue ++ s.output ++
        outputs answer s.gdb (ended s.m_ostreamToGdb))) := by
  rw [h.written, ended_joined_append h.lines, outputs_append, ← h.gdb, ← List.append_assoc,
    h.printed]
  simp only [List.append_assoc]

/-- What is known in every state of a run. -/
def Ongoing (answer : G → Line → List Line × G) (start s : Dialogue G) : Prop :=
  ∃ processed cleared taken part current,
    Follows answer start s processed cleared taken part current

theorem Start.ongoing (h : start.Start) : Ongoing answer start start := by
  refine ⟨[], [], [], [], [], by simp, ?_, rfl, ?_, ?_, ?_, ?_, ?_⟩
  · rw [h.sent, List.flatMap_nil, List.append_nil, List.append_nil]
    rfl
  · rw [h.queue]
    exact List.append_nil _
  · rw [h.skipped]
    rfl
  · rw [h.skipped]
    exact ⟨[], start.m_ostreamToGdb, rfl, by simp, Nat.zero_le _⟩
  · rw [h.responses]
    exact .nil
  · rw [Fits, h.place, h.sent, h.responses]
    exact ⟨rfl, rfl, rfl⟩

/-- A step of the writer or the reader that leaves GDB, its output and the counts as they are. -/
theorem Follows.of_place {processed cleared taken current : List Line} {part : Line}
    (h : Follows answer start s processed cleared taken part current) {place : Conversing}
    (hfits : ({ s with place := place } : Dialogue G).Fits part current) :
    Ongoing answer start { s with place := place } :=
  ⟨processed, cleared, taken, part, current, h.lines, h.written, h.gdb, h.printed, h.skipped,
    h.early, h.cut, hfits⟩

theorem ongoing_call {command : Line} (h : Ongoing answer start s) (hplace : s.place = .idle) :
    Ongoing answer start (s.call command) := by
  obtain ⟨processed, cleared, taken, part, current, hf⟩ := id h
  obtain ⟨hpart, hcurrent, hcount⟩ : part = [] ∧ current = [] ∧
      s.sent.length = s.responses.length := by
    have := hf.fits
    rwa [Fits, hplace] at this
  unfold call
  split
  · exact h
  split
  case isTrue hqueue =>
    by_cases hresponses : s.responses = []
    · rw [if_pos hresponses]
      rw [hresponses] at hcount
      exact hf.of_place ⟨hpart, hcurrent, List.length_eq_zero_iff.mp hcount, hresponses⟩
    · rw [if_neg hresponses]
      exact hf.of_place ⟨hpart, hcurrent, hcount, hresponses, hqueue⟩
  · exact hf.of_place ⟨hpart, hcurrent, hcount⟩

theorem ongoing_write {written rest : Line} (h : Ongoing answer start s)
    (hplace : s.place = .sending written rest) : Ongoing answer start (s.write written rest) := by
  obtain ⟨processed, cleared, taken, part, current, hf⟩ := h
  obtain ⟨rfl, hcurrent, hcount⟩ : part = written ∧ current = [] ∧
      s.sent.length = s.responses.length := by
    have := hf.fits
    rwa [Fits, hplace] at this
  unfold write
  split
  · exact hf.of_place hcount.ge
  dsimp only
  split
  · -- the last chunk: the command is complete, and nothing of another one is written
    refine ⟨processed, cleared, taken, [], current, hf.lines, ?_, hf.gdb, hf.printed, hf.skipped,
      hf.early, hf.cut, rfl, hcurrent, ?_⟩
    · dsimp only
      rw [← List.append_assoc, ← List.append_assoc, ← hf.written]
      simp only [List.flatMap_append, List.flatMap_singleton, List.append_assoc, List.append_nil]
    · rw [List.length_append, hcount]
      rfl
  · refine ⟨processed, cleared, taken, part ++ rest.take 1000, current, hf.lines, ?_, hf.gdb,
      hf.printed, hf.skipped, hf.early, hf.cut, rfl, hcurrent, hcount⟩
    dsimp only
    rw [← List.append_assoc, ← List.append_assoc, hf.written]

theorem ongoing_gdb {rest : Line} (h : Ongoing answer start s)
    (hrest : s.m_ostreamToGdb.dropWhile (· ≠ '\n') = '\n' :: rest) :
    Ongoing answer start (s.step answer (s.m_ostreamToGdb.takeWhile (· ≠ '\n')) rest) := by
  obtain ⟨processed, cleared, taken, part, current, hf⟩ := h
  have hline : '\n' ∉ s.m_ostreamToGdb.takeWhile (· ≠ '\n') := fun hmem => by
    simpa using List.mem_takeWhile_imp hmem
  have hsplit : s.m_ostreamToGdb = s.m_ostreamToGdb.takeWhile (· ≠ '\n') ++ '\n' :: rest := by
    rw [← hrest, List.takeWhile_append_dropWhile]
  refine ⟨processed ++ [s.m_ostreamToGdb.takeWhile (· ≠ '\n')], cleared, taken, part, current,
    ?_, ?_, ?_, ?_, hf.skipped, hf.early, hf.cut, hf.fits⟩
  · exact List.forall_mem_append.mpr ⟨hf.lines, List.forall_mem_singleton.mpr hline⟩
  · calc start.m_ostreamToGdb ++ s.sent.flatMap (· ++ ending) ++ part
        = joined '\n' processed ++ s.m_ostreamToGdb := hf.written
      _ = joined '\n' processed ++
          (s.m_ostreamToGdb.takeWhile (· ≠ '\n') ++ '\n' :: rest) := by rw [← hsplit]
      _ = joined '\n' (processed ++ [s.m_ostreamToGdb.takeWhile (· ≠ '\n')]) ++ rest := by
        simp [joined]
  · rw [step, stateAfter_append, ← hf.gdb]
    rfl
  · rw [outputs_append, outputs_singleton, ← hf.gdb, ← List.append_assoc, hf.printed, step]
    simp only [List.append_assoc]

theorem ongoing_pop {responseSS queue : List Line} {line : Line} (h : Ongoing answer start s)
    (hplace : s.place = .waiting responseSS) (hqueue : s.m_gdbOutputQueue = line :: queue) :
    Ongoing answer start (s.pop responseSS line queue) := by
  obtain ⟨processed, cleared, taken, part, current, hf⟩ := h
  obtain ⟨hpart, rfl, hcount⟩ : part = [] ∧ current = responseSS ∧
      s.sent.length = s.responses.length + 1 := by
    have := hf.fits
    rwa [Fits, hplace] at this
  have hprinted := hf.printed
  rw [hqueue] at hprinted
  unfold pop
  split
  case isTrue hends =>
    refine ⟨processed, cleared, taken ++ [line], part, [], hf.lines, hf.written, hf.gdb, ?_,
      hf.skipped, hf.early, hf.cut.done hends, hpart, rfl, ?_⟩
    · rw [hprinted]
      simp only [List.append_assoc, List.cons_append, List.nil_append]
    · rw [List.length_append, hcount]
      rfl
  case isFalse hends =>
    refine ⟨processed, cleared, taken ++ [line], part, current ++ [line], hf.lines, hf.written,
      hf.gdb, ?_, hf.skipped, hf.early, hf.cut.more (Bool.eq_false_iff.mpr hends), hpart, rfl,
      hcount⟩
    rw [hprinted]
    simp only [List.append_assoc, List.cons_append, List.nil_append]

/-- Nothing was sent, so all that is cleared comes from the start. -/
theorem ongoing_clear (h : Ongoing answer start s) (hplace : s.place = .leftover) :
    Ongoing answer start { s with
      m_gdbOutputQueue := []
      place := .idle
      skipped := s.skipped + s.m_gdbOutputQueue.length } := by
  obtain ⟨processed, cleared, taken, part, current, hf⟩ := h
  obtain ⟨rfl, rfl, hsent, hresponses⟩ : part = [] ∧ current = [] ∧ s.sent = [] ∧
      s.responses = [] := by
    have := hf.fits
    rwa [Fits, hplace] at this
  have hcut := hf.cut
  rw [hresponses] at hcut
  obtain rfl : taken = [] := by
    cases hcut
    rfl
  have hwritten := hf.written
  rw [hsent, List.flatMap_nil, List.append_nil, List.append_nil] at hwritten
  refine ⟨processed, cleared ++ s.m_gdbOutputQueue, [], [], [], hf.lines, hf.written, hf.gdb,
    ?_, ?_, ⟨processed, s.m_ostreamToGdb, hwritten, hf.lines, ?_⟩, hf.cut, rfl, rfl, ?_⟩
  · rw [hf.printed]
    simp only [List.append_assoc, List.nil_append]
  · rw [List.length_append, hf.skipped]
  · rw [hf.printed]
    simp only [List.length_append, ← hf.skipped]
    omega
  · rw [hsent, hresponses]
    rfl

theorem ongoing_next (h : Ongoing answer start s) (hstep : next answer s e = some t) :
    Ongoing answer start t := by
  cases e with
  | call command =>
    simp only [next] at hstep
    split at hstep
    case h_1 hplace =>
      obtain rfl := Option.some.inj hstep
      exact ongoing_call h hplace
    case h_2 => cases hstep
  | write =>
    simp only [next] at hstep
    split at hstep
    case h_1 hplace =>
      obtain rfl := Option.some.inj hstep
      exact ongoing_write h hplace
    case h_2 => cases hstep
  | gdb =>
    simp only [next] at hstep
    split at hstep
    case h_1 => cases hstep
    case h_2 c rest hrest =>
      obtain rfl := Option.some.inj hstep
      obtain rfl := eq_newline_of_dropWhile hrest
      exact ongoing_gdb h hrest
  | queue =>
    simp only [next] at hstep
    split at hstep
    case h_1 => cases hstep
    case h_2 line output houtput =>
      obtain rfl := Option.some.inj hstep
      obtain ⟨processed, cleared, taken, part, current, hf⟩ := h
      refine ⟨processed, cleared, taken, part, current, hf.lines, hf.written, hf.gdb, ?_,
        hf.skipped, hf.early, hf.cut, ?_⟩
      · rw [hf.printed, houtput, List.append_assoc, List.singleton_append]
      · exact hf.fits.queue line output
  | pop =>
    simp only [next] at hstep
    split at hstep
    case h_1 responseSS line queue hplace hqueue =>
      obtain rfl := Option.some.inj hstep
      exact ongoing_pop h hplace hqueue
    case h_2 => cases hstep
  | terminate =>
    obtain rfl := Option.some.inj hstep
    obtain ⟨processed, cleared, taken, part, current, hf⟩ := h
    exact ⟨processed, cleared, taken, part, current, hf.lines, hf.written, hf.gdb, hf.printed,
      hf.skipped, hf.early, hf.cut, hf.fits⟩
  | interrupt =>
    simp only [next] at hstep
    split at hstep
    case h_1 responseSS hplace =>
      split at hstep
      · obtain rfl := Option.some.inj hstep
        obtain ⟨processed, cleared, taken, part, current, hf⟩ := h
        have hcount : s.sent.length = s.responses.length + 1 := by
          have := hf.fits
          rw [Fits, hplace] at this
          exact this.2.2
        exact hf.of_place (show s.responses.length ≤ s.sent.length by omega)
      · cases hstep
    case h_2 => cases hstep
  | clear =>
    simp only [next] at hstep
    split at hstep
    case h_1 hplace =>
      obtain rfl := Option.some.inj hstep
      exact ongoing_clear h hplace
    case h_2 => cases hstep

theorem Start.ongoing_run (h : start.Start) {tr : List (Dialogue G × Event)}
    (hr : Run (next answer) start tr s) : Ongoing answer start s :=
  hr.invariant h.ongoing ongoing_next

/-! ### Responses in step -/

/-- Each response that was returned is the one that was due to its command. -/
def InStep (answer : G → Line → List Line × G) (start s : Dialogue G) : Prop :=
  s.responses = (due answer start s).take s.responses.length

/-- All that is due to the commands, and what is printed beyond it. -/
theorem Follows.due {processed cleared taken current : List Line} {part : Line}
    (hfluffi : Complains answer) (h : Follows answer start s processed cleared taken part current)
    (hsent : s.sent ≠ []) :
    ∃ (rs : List (List Line × Line)) (g : G), rs.map (·.1) = Dialogue.due answer start s ∧
      rs.length = s.sent.length ∧ (∀ r ∈ rs, endsResponse r.2 = true) ∧
      taken ++ (s.m_gdbOutputQueue ++ s.output ++ outputs answer s.gdb (ended s.m_ostreamToGdb)) =
        Systems.ended rs ++ outputs answer g (ended part) := by
  obtain ⟨command, commands, hcommands⟩ := List.exists_cons_of_ne_nil hsent
  obtain ⟨rs, hmap, hends, hout⟩ := outputs_commands hfluffi start.gdb
    ((start.m_ostreamToGdb ++ command) :: commands)
  obtain ⟨first, others, rfl⟩ : ∃ first others, rs = first :: others := by
    cases rs with
    | nil => cases hmap
    | cons first others => exact ⟨first, others, rfl⟩
  rw [replies, List.map_cons, List.cons.injEq] at hmap
  have hstream := h.stream
  have htext : start.m_ostreamToGdb ++ s.sent.flatMap (· ++ ending) ++ part =
      ((start.m_ostreamToGdb ++ command) :: commands).flatMap (· ++ ending) ++ part := by
    simp [hcommands]
  rw [htext, ended_commands, outputs_append, hout, Systems.ended, List.flatMap_cons] at hstream
  generalize stateAfter answer start.gdb _ = g at hstream
  -- what is cleared belongs to the first reply
  have hskipped : s.skipped ≤ (start.output ++ first.1).length := by
    obtain ⟨read, rest, htext, hread, hle⟩ := h.early
    have hfirst : first.1 = outputs answer start.gdb (read ++ (rest ++ command).splitOn '\n') := by
      rw [hmap.1, htext, List.append_assoc, splitOn_joined_append hread]
    rw [outputs_append] at hfirst
    rw [hfirst]
    simp only [List.length_append] at hle ⊢
    omega
  refine ⟨((start.output ++ first.1).drop s.skipped, first.2) :: others, g, ?_, ?_, ?_, ?_⟩
  · rw [Dialogue.due, hcommands]
    simp only [replies, List.map_cons, ← hmap.1, ← hmap.2]
  · have hcount := congrArg List.length hmap.2
    rw [List.length_map, length_replies] at hcount
    rw [hcommands, List.length_cons, List.length_cons, hcount]
  · exact List.forall_mem_cons.mpr (List.forall_mem_cons.mp hends)
  · have hparts : start.output ++ first.1 ++ (first.2 :: Systems.ended others ++
        outputs answer g (ended part)) = cleared ++ (taken ++ (s.m_gdbOutputQueue ++ s.output ++
          outputs answer s.gdb (ended s.m_ostreamToGdb))) := by
      rw [← hstream]
      simp [Systems.ended]
    have hdrop := congrArg (List.drop s.skipped) hparts
    rw [List.drop_append_of_le_length hskipped, List.drop_left' h.skipped] at hdrop
    rw [← hdrop]
    simp [Systems.ended]

/-- In any run: as long as no line of a reply ends it early, the responses are the replies, and
between two calls nothing more is on its way. -/
theorem Follows.inStep {processed cleared taken current : List Line} {part : Line}
    (hfluffi : Complains answer) (h : Follows answer start s processed cleared taken part current)
    (hclean : ∀ reply ∈ (Dialogue.due answer start s).take s.responses.length, ∀ line ∈ reply,
      endsResponse line = false) :
    InStep answer start s ∧ s.place ≠ .LEFTOVER := by
  have hle := h.fits.length_le
  by_cases hsent : s.sent = []
  · rw [hsent] at hle
    have hresponses : s.responses = [] := List.eq_nil_of_length_eq_zero (Nat.le_zero.mp hle)
    refine ⟨by rw [InStep, hresponses]; rfl, fun hplace => ?_⟩
    have hfits := h.fits
    rw [Fits, hplace] at hfits
    exact hfits.2.2.2.1 hresponses
  obtain ⟨rs, g, hdue, hlength, hends, hstream⟩ := h.due hfluffi hsent
  rw [← hlength] at hle
  rw [← hdue, ← List.map_take, List.forall_mem_map] at hclean
  obtain ⟨hresponses, hrest⟩ := h.cut.eq_replies hstream hends hle hclean
  refine ⟨by rw [InStep, ← hdue, ← List.map_take]; exact hresponses, fun hplace => ?_⟩
  have hfits := h.fits
  rw [Fits, hplace] at hfits
  obtain ⟨rfl, rfl, hcount, -, hqueue⟩ := hfits
  -- every command has its response, so nothing is left for the queue
  have hdrop : rs.drop s.responses.length = [] := by
    rw [List.drop_eq_nil_iff, hlength, hcount]
  have htail : outputs answer g (ended []) = [] := rfl
  rw [hdrop, htail] at hrest
  simp [Systems.ended] at hrest
  exact hqueue hrest.1

/-- In every run from the start of GDB the responses are in step exactly if no line that GDB
prints for a command says what it says to `fluffi`, and as long as they are, no call finds
a line that is left over. -/
theorem inStep_iff (hfluffi : Complains answer) (hstart : start.Start)
    {tr : List (Dialogue G × Event)} (hr : Run (next answer) start tr s) :
    (InStep answer start s ↔ ∀ reply ∈ (due answer start s).take s.responses.length,
      ∀ line ∈ reply, endsResponse line = false) ∧
    (InStep answer start s → s.place ≠ .LEFTOVER) := by
  obtain ⟨processed, cleared, taken, part, current, hf⟩ := hstart.ongoing_run hr
  have hiff : InStep answer start s ↔ ∀ reply ∈ (due answer start s).take s.responses.length,
      ∀ line ∈ reply, endsResponse line = false := by
    constructor
    · intro h
      rw [← h]
      exact hf.cut.replies_clean
    · exact fun h => (hf.inStep hfluffi h).1
  exact ⟨hiff, fun h => (hf.inStep hfluffi (hiff.mp h)).2⟩

/-- A debugger that prints what it reads. -/
def echo (_ : Unit) (line : Line) : List Line × Unit :=
  if line = fluffi then (["Undefined command: fluffi".toList], ()) else ([line], ())

def started : Dialogue Unit := ⟨(), [], [], [], false, .idle, [], [], 0⟩

/-- Two commands, the second one with the complaint in its reply. -/
def twoCommands : Option (List (Dialogue Unit × Event) × Dialogue Unit) :=
  exec (next echo) started
    [.call "i r".toList, .write, .gdb, .queue, .gdb, .pop, .queue, .pop,
      .call "Undefined command".toList, .write, .gdb, .gdb, .queue, .pop]

/-- The second response is cut. -/
theorem inStep_iff_cut :
    ∃ h : twoCommands.isSome = true, ¬ InStep echo started (twoCommands.get h).2 := by
  refine ⟨rfl, fun h => ?_⟩
  have hclean := (inStep_iff (fun _ => ⟨_, rfl, rfl⟩) ⟨rfl, rfl, rfl, rfl, rfl⟩
    (run_of_exec (Option.some_get (x := twoCommands) rfl).symm)).1.mp h
  have hline := hclean _ (List.mem_cons_of_mem _ List.mem_cons_self) _ List.mem_cons_self
  cases hline

end Dialogue

end Fluffi.Runner.Gdb
