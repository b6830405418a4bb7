import Fluffi.Runner.BreakpointMemory
import Fluffi.Runner.GdbSteps

/-! A hard coverage reset of the debugger thread. The command that enables all
breakpoints and their flags are computed before the target is stopped, so a
breakpoint that is hit after that either loses its flag again, when its signal is
handled as a leftover, or is lost, when its signal is read as part of an answer. -/

namespace Fluffi.Runner.Gdb

open Shared Systems

variable {bpInstr : UInt32} {bpInstrBytes : BpInstrBytes}
  {crashRVA : List Line → UInt64 → Option String} {s t : GDBThread} {known : List UInt64}
  {read : List (Line × Bool)} {x name : Line}

/-- What a finished hard reset should have reached. -/
structure ResetComplete (bpInstr : UInt32) (bpInstrBytes : BpInstrBytes) (s : GDBThread)
    (coming : List Line) : Prop where
  enabled : ∀ bp ∈ s.allBreakpoints, bp.m_isEnabled = true
  written : ∀ bp ∈ s.allBreakpoints, ∀ i < bpInstrBytes.count,
    lastWritten (bp.m_absoluteAdress + i) s.toGdb = some (byteOf bpInstr i)
  handled : ¬ Hit (addresses s.allBreakpoints) s.read coming false

/-! ### The invariant -/

/-- The enable-all command that is not sent yet. -/
def Place.command : Place → List GDBCommand
  | .consume leftoverOf | .address leftoverOf _ | .infoFiles leftoverOf _ _
  | .infoAnswer leftoverOf _ _ _ => leftoverOf.getD []
  | .send enableAllCommand => enableAllCommand
  | _ => []

/-- Signals are answered, except while `handleSignal` waits for an address. -/
def Reading : Place → List (Line × Bool) → Prop
  | .address _ name, read => Awaiting name read
  | _, read => AllAnswered read

/-- Under an enabled breakpoint the instruction is overwritten only where a disabled one
is, or where the command that is not sent yet writes; and during a reset a flag is missing
exactly if a signal of ours was handled. -/
structure ResetInv (bpInstr : UInt32) (bpInstrBytes : BpInstrBytes) (place : Place)
    (bps : List GDBBreakpoint) (toGdb : List GDBCommand) (read : List (Line × Bool)) :
    Prop where
  written : ∀ bp ∈ bps, bp.m_isEnabled = true → ∀ i < bpInstrBytes.count,
    Placed bpInstr bpInstrBytes (addresses bps) toGdb (bp.m_absoluteAdress + i) ∨
      Removed bpInstrBytes bps (bp.m_absoluteAdress + i) ∨
        (lastWritten (bp.m_absoluteAdress + i) place.command).isSome
  command : ∀ command ∈ place.command, ∃ a ∈ addresses bps,
    command = .set bpInstrBytes a bpInstr
  hits : place.resetting = true →
    (Hit (addresses bps) read [] true ↔ ∃ bp ∈ bps, bp.m_isEnabled = false)
  reading : Reading place read

namespace ResetInv

variable {place place' : Place} {bps : List GDBBreakpoint} {toGdb : List GDBCommand}
  {leftoverOf : Option (List GDBCommand)}

/-- Another line is read, and not given to `handleSignal`. -/
theorem snoc (h : ResetInv bpInstr bpInstrBytes place bps toGdb read) (hall : AllAnswered read)
    (x : Line) (hplace : Reading place (read ++ [(x, false)])) :
    ResetInv bpInstr bpInstrBytes place bps toGdb (read ++ [(x, false)]) :=
  ⟨h.written, h.command, fun hr => hall.hit_snoc.trans (h.hits hr), hplace⟩

theorem move (h : ResetInv bpInstr bpInstrBytes place bps toGdb read)
    (hcommand : place'.command = place.command)
    (hresetting : place'.resetting = true → place.resetting = true)
    (hreading : Reading place' read) : ResetInv bpInstr bpInstrBytes place' bps toGdb read :=
  ⟨by rw [hcommand]; exact h.written, by rw [hcommand]; exact h.command,
    fun hr => h.hits (hresetting hr), hreading⟩

/-- A command that writes nothing. -/
theorem tell (h : ResetInv bpInstr bpInstrBytes place bps toGdb read) {command : GDBCommand}
    (hcommand : ∀ a, command.byteAt a = none) :
    ResetInv bpInstr bpInstrBytes place bps (command :: toGdb) read := by
  refine ⟨?_, h.command, h.hits, h.reading⟩
  intro bp hbp henabled i hi
  have hsame : ∀ address, lastWritten address (command :: toGdb) = lastWritten address toGdb :=
    fun address => List.findSome?_cons_of_isNone (by rw [hcommand address]; rfl)
  exact (h.written bp hbp henabled i hi).imp_left fun hplaced => hplaced.congr (hsame _)

/-- A breakpoint that is handled loses its flag and its instruction. -/
theorem handle (h : ResetInv bpInstr bpInstrBytes (.address leftoverOf name) bps toGdb read)
    {signalAddress : UInt64} {gdbb : GDBBreakpoint} (hx : isAddressLine x = true)
    (hstoull : stoull x = some signalAddress) (htrap : isSIGTRAP name = true)
    (hfound : breakpointAt bps signalAddress = some gdbb) :
    ResetInv bpInstr bpInstrBytes (.consume leftoverOf) (disable gdbb.m_absoluteAdress bps)
      (.jump gdbb.m_absoluteAdress ::
        .set bpInstrBytes gdbb.m_absoluteAdress gdbb.m_originalBytes :: toGdb)
      (read ++ [(x, false)]) := by
  have hawaiting : Awaiting name read := h.reading
  have hmem : gdbb.m_absoluteAdress ∈ addresses bps := by
    rw [addresses]
    exact List.mem_map_of_mem (breakpointAt_mem hfound)
  refine ⟨?_, ?_, ?_, hawaiting.answered hx⟩
  · intro bp hbp henabled i hi
    obtain ⟨hold, _⟩ := mem_disable hbp henabled
    rw [addresses_disable]
    -- the original bytes overwrite what is under the breakpoint that is now disabled
    by_cases hunder : bp.m_absoluteAdress + i - gdbb.m_absoluteAdress < bpInstrBytes.count
    · right
      left
      obtain ⟨bp', hbp', hdisabled, haddress⟩ := exists_disabled hmem
      exact ⟨bp', hbp', hdisabled, haddress ▸ hunder⟩
    · have hsame : lastWritten (bp.m_absoluteAdress + i) (.jump gdbb.m_absoluteAdress ::
          .set bpInstrBytes gdbb.m_absoluteAdress gdbb.m_originalBytes :: toGdb) =
          lastWritten (bp.m_absoluteAdress + i) toGdb := by
        simp only [lastWritten, List.findSome?_cons, GDBCommand.byteAt, if_neg hunder]
      obtain hplaced | hremoved | hpending := h.written bp hold henabled i hi
      · exact .inl (hplaced.congr hsame)
      · exact .inr (.inl hremoved.disable)
      · exact .inr (.inr hpending)
  · rw [addresses_disable]
    exact h.command
  · intro _
    rw [addresses_disable, hawaiting.hit_snoc]
    have hknown : Known (addresses bps) x := by
      refine ⟨signalAddress, hstoull, (breakpointAt_isSome_iff bps signalAddress).mp ?_⟩
      rw [hfound]
      rfl
    obtain ⟨bp', hbp', hdisabled, _⟩ := exists_disabled hmem
    exact ⟨fun _ => ⟨bp', hbp', hdisabled⟩, fun _ => .inr ⟨htrap, hx, hknown⟩⟩

/-- An address that belongs to no breakpoint of ours. -/
theorem lookUp (h : ResetInv bpInstr bpInstrBytes (.address leftoverOf name) bps toGdb read)
    {signalAddress : UInt64} (hx : isAddressLine x = true)
    (hstoull : stoull x = some signalAddress)
    (hnone : (if isSIGTRAP name then breakpointAt bps signalAddress else none) = none) :
    ResetInv bpInstr bpInstrBytes (.infoFiles leftoverOf name signalAddress) bps toGdb
      (read ++ [(x, false)]) := by
  have hawaiting : Awaiting name read := h.reading
  refine ⟨h.written, h.command, ?_, hawaiting.answered hx⟩
  intro hr
  rw [hawaiting.hit_snoc, ← h.hits hr]
  constructor
  · rintro (hhit | ⟨htrap, _, address, hsome, hknown⟩)
    · exact hhit
    · obtain rfl : signalAddress = address := Option.some.inj (hstoull.symm.trans hsome)
      rw [if_pos htrap] at hnone
      have hisSome := (breakpointAt_isSome_iff bps signalAddress).mpr hknown
      rw [hnone] at hisSome
      cases hisSome
  · exact .inl

/-- The start of a reset: every flag is set, and the command makes up for it. -/
theorem enable (h : ResetInv bpInstr bpInstrBytes .cover bps toGdb read) :
    ResetInv bpInstr bpInstrBytes
      (.send (generateEnableAllCommand bps bpInstr bpInstrBytes).1)
      (generateEnableAllCommand bps bpInstr bpInstrBytes).2 toGdb [] := by
  have hnothing : ∀ known given, ¬ Hit known [] [] given := by
    rintro known given ⟨before, line, after, hread, _⟩
    simp at hread
  have haddresses : addresses (generateEnableAllCommand bps bpInstr bpInstrBytes).2 =
      addresses bps := by
    rw [addresses, addresses, generateEnableAllCommand, List.map_map]
    rfl
  -- every breakpoint that was disabled is in the command
  have hpending : ∀ bp ∈ bps, bp.m_isEnabled = false → ∀ address,
      address - bp.m_absoluteAdress < bpInstrBytes.count →
        (lastWritten address (generateEnableAllCommand bps bpInstr bpInstrBytes).1).isSome := by
    intro bp hbp hdisabled address hunder
    apply lastWritten_isSome_iff.mpr
    refine ⟨.set bpInstrBytes bp.m_absoluteAdress bpInstr, ?_, byteAt_set_isSome_iff.mpr hunder⟩
    apply List.mem_map.mpr
    exact ⟨bp, List.mem_filter.mpr ⟨hbp, by simp [hdisabled]⟩, rfl⟩
  refine ⟨?_, ?_, ?_, ?_⟩
  · intro bp hbp _ i hi
    rw [haddresses]
    obtain ⟨old, hold, rfl⟩ := List.mem_map.mp hbp
    cases henabled : old.m_isEnabled with
    | true =>
      obtain hplaced | ⟨b, hb, hdisabled, hunder⟩ | hcommand := h.written old hold henabled i hi
      · exact .inl hplaced
      · exact .inr (.inr (hpending b hb hdisabled _ hunder))
      · cases hcommand
    | false =>
      have hback : old.m_absoluteAdress + i - old.m_absoluteAdress = i := by grind
      exact .inr (.inr (hpending old hold henabled _ (hback.symm ▸ hi)))
  · intro command hcommand
    rw [haddresses]
    obtain ⟨bp, hbp, rfl⟩ := List.mem_map.mp hcommand
    exact ⟨_, List.mem_map_of_mem (List.mem_of_mem_filter hbp), rfl⟩
  · intro _
    constructor
    · intro hhit
      exact absurd hhit (hnothing _ _)
    · rintro ⟨bp, hbp, hdisabled⟩
      obtain ⟨old, _, rfl⟩ := List.mem_map.mp hbp
      cases hdisabled
  · intro before line after hread
    simp at hread

/-- The command is sent: what it writes is placed. -/
theorem send {enableAllCommand : List GDBCommand}
    (h : ResetInv bpInstr bpInstrBytes (.send enableAllCommand) bps toGdb read) :
    ResetInv bpInstr bpInstrBytes .answer bps
      (.fluffi :: (enableAllCommand.reverse ++ toGdb)) read := by
  have hsent : ResetInv bpInstr bpInstrBytes .answer bps (enableAllCommand.reverse ++ toGdb)
      read := by
    refine ⟨?_, by simp [Place.command], h.hits, h.reading⟩
    intro bp hbp henabled i hi
    have hset : ∀ command ∈ enableAllCommand.reverse, ∃ a ∈ addresses bps,
        command = .set bpInstrBytes a bpInstr :=
      fun command hc => h.command command (List.mem_reverse.mp hc)
    by_cases hsome : (lastWritten (bp.m_absoluteAdress + i) enableAllCommand.reverse).isSome
    · exact .inl (placed_of_sent hset hsome)
    · obtain hplaced | hremoved | hpending := h.written bp hbp henabled i hi
      · refine .inl (hplaced.congr ?_)
        rw [lastWritten_append, Option.not_isSome_iff_eq_none.mp hsome, Option.none_or]
      · exact .inr (.inl hremoved)
      · obtain ⟨command, hcommand, hbyte⟩ := lastWritten_isSome_iff.mp hpending
        exact absurd (lastWritten_isSome_iff.mpr
          ⟨command, List.mem_reverse.mpr hcommand, hbyte⟩) hsome
  exact hsent.tell fun _ => rfl

/-- With nothing left to send, the reset is complete exactly if no signal of ours was read and
the overlaps agree. -/
theorem complete_iff (h : ResetInv bpInstr bpInstrBytes place s.allBreakpoints s.toGdb s.read)
    (hall : AllAnswered s.read) (hresetting : place.resetting = true)
    (hcommand : place.command = []) (coming : List Line) :
    ResetComplete bpInstr bpInstrBytes s coming ↔
      (∀ given, ¬ Hit (addresses s.allBreakpoints) s.read coming given) ∧
        OverlapsAgree bpInstr bpInstrBytes (addresses s.allBreakpoints) := by
  have hhits : Hit (addresses s.allBreakpoints) s.read coming true ↔
      ∃ bp ∈ s.allBreakpoints, bp.m_isEnabled = false :=
    hall.hit_coming.trans (h.hits hresetting)
  constructor
  · rintro ⟨henabled, hwritten, hhandled⟩
    constructor
    · intro given
      cases given with
      | false => exact hhandled
      | true =>
        rw [hhits]
        rintro ⟨bp, hbp, hdisabled⟩
        exact absurd (henabled bp hbp) (by simp [hdisabled])
    · intro a ha b hb i hi j hj hsame
      obtain ⟨bp, hbp, rfl⟩ := List.mem_map.mp ha
      obtain ⟨bp', hbp', rfl⟩ := List.mem_map.mp hb
      have hbytes := (hwritten bp hbp i hi).symm.trans (hsame ▸ hwritten bp' hbp' j hj)
      exact Option.some.inj hbytes
  · rintro ⟨hnone, hagree⟩
    have henabled : ∀ bp ∈ s.allBreakpoints, bp.m_isEnabled = true := by
      intro bp hbp
      by_contra hdisabled
      exact hnone true (hhits.mpr ⟨bp, hbp, by simpa using hdisabled⟩)
    refine ⟨henabled, ?_, hnone false⟩
    intro bp hbp i hi
    obtain hplaced | ⟨b, hb, hdisabled, _⟩ | hpending := h.written bp hbp (henabled bp hbp) i hi
    · exact hplaced.eq hagree (List.mem_map_of_mem hbp) hi
    · rw [henabled b hb] at hdisabled
      cases hdisabled
    · rw [hcommand] at hpending
      cases hpending

end ResetInv

/-! ### Runs -/

/-- The invariant of a thread that has not left `gdbDebug`. -/
abbrev Inv (bpInstr : UInt32) (bpInstrBytes : BpInstrBytes) (s : GDBThread) : Prop :=
  ResetInv bpInstr bpInstrBytes s.place s.allBreakpoints s.toGdb s.read

theorem consumeLine_inv {leftoverOf : Option (List GDBCommand)}
    (hplace : s.place = .consume leftoverOf)
    (h : ResetInv bpInstr bpInstrBytes (.consume leftoverOf) s.allBreakpoints s.toGdb s.read)
    (line : Line) : (s.consumeLine leftoverOf line).place = .returned ∨
      Inv bpInstr bpInstrBytes (s.consumeLine leftoverOf line) := by
  have hall : AllAnswered s.read := h.reading
  have hsnoc : ∀ x, Inv bpInstr bpInstrBytes { s with read := s.read ++ [(x, false)] } := by
    intro x
    rw [Inv, hplace]
    exact h.snoc hall x hall.snoc
  simp only [GDBThread.consumeLine]
  split
  · exact .inr (hsnoc line)
  · split
    case isTrue hsignal =>
      cases hname : signalName line with
      | none => exact .inl rfl
      | some name =>
        refine .inr ⟨h.written, h.command, ?_, hall.give hsignal hname⟩
        intro hr
        exact hall.hit_snoc.trans (h.hits hr)
    · split
      · exact .inl rfl
      · exact .inr (hsnoc line)

theorem handleAddress_inv {leftoverOf : Option (List GDBCommand)}
    (h : ResetInv bpInstr bpInstrBytes (.address leftoverOf name) s.allBreakpoints s.toGdb s.read)
    (hx : isAddressLine x = true) :
    (s.handleAddress bpInstrBytes leftoverOf name x).place = .returned ∨
      Inv bpInstr bpInstrBytes (s.handleAddress bpInstrBytes leftoverOf name x) := by
  simp only [GDBThread.handleAddress]
  cases hstoull : stoull x with
  | none => exact .inl rfl
  | some signalAddress =>
    simp only
    split
    case h_2 hnone => exact .inr (h.lookUp hx hstoull hnone)
    case h_1 gdbb hfound =>
      obtain ⟨htrap, hfound⟩ := Option.ite_none_right_eq_some.mp hfound
      exact .inr (h.handle hx hstoull htrap hfound)

theorem handleCrash_inv {place : Place} {rva : String}
    (h : ResetInv bpInstr bpInstrBytes place s.allBreakpoints s.toGdb s.read) :
    Inv bpInstr bpInstrBytes { s.handleCrash name rva with place := place } := by
  simp only [GDBThread.handleCrash]
  split
  · exact h.tell fun _ => rfl
  · split
    · split <;> exact h
    · exact h.tell fun _ => rfl

/-- The thread leaves `gdbDebug` or keeps the invariant. -/
theorem ThreadStep.inv (hstep : ThreadStep bpInstr bpInstrBytes crashRVA s t)
    (h : Inv bpInstr bpInstrBytes s) : t.place = .returned ∨ Inv bpInstr bpInstrBytes t := by
  cases hstep with
  | leave hreturned => exact .inl hreturned
  | beginLoop hplace =>
    rw [Inv, hplace] at h
    exact .inr (h.move rfl (by simp [Place.resetting]) h.reading)
  | consumed hplace =>
    rw [Inv, hplace] at h
    exact .inr (h.move rfl (by simp [Place.resetting]) h.reading)
  | leftoversConsumed hplace =>
    rw [Inv, hplace] at h
    exact .inr (h.move rfl (fun _ => rfl) h.reading)
  | @consumeLine leftoverOf line queue hplace =>
    rw [Inv, hplace] at h
    exact @consumeLine_inv bpInstr bpInstrBytes { s with m_gdbOutputQueue := queue } leftoverOf
      hplace h line
  | address hplace haddress =>
    rw [Inv, hplace] at h
    exact handleAddress_inv h haddress
  | noAddress hplace haddress =>
    rw [Inv, hplace] at h
    have hawaiting : Awaiting _ s.read := h.reading
    refine .inr ⟨?_, ?_, fun hr => ?_, ?_⟩ <;> simp only [hplace]
    · exact h.written
    · exact h.command
    · rw [hawaiting.hit_snoc, ← h.hits (hplace ▸ hr)]
      simp [haddress]
    · exact hawaiting.snoc haddress
  | infoFiles hplace =>
    rw [Inv, hplace] at h
    exact .inr (((h.tell fun _ => rfl).tell fun _ => rfl).move rfl id h.reading)
  | @crash leftoverOf name line address response queue rva hplace hrva =>
    rw [Inv, hplace] at h
    have hall : AllAnswered s.read := h.reading
    exact .inr (handleCrash_inv ((h.snoc hall line hall.snoc).move rfl id hall.snoc))
  | @infoLine leftoverOf name line address response queue hplace =>
    rw [Inv, hplace] at h
    have hall : AllAnswered s.read := h.reading
    exact .inr ((h.snoc hall line hall.snoc).move rfl id hall.snoc)
  | cover hplace =>
    rw [Inv, hplace] at h
    have hwait : ResetInv bpInstr bpInstrBytes .wait s.allBreakpoints s.toGdb s.read :=
      h.move rfl (by simp [Place.resetting]) h.reading
    right
    simp only [GDBThread.cover]
    split
    · exact h.enable
    · exact hwait
    · exact hwait
    · exact hwait
  | nothingToSend hplace =>
    rw [Inv, hplace] at h
    exact .inr ((h.tell fun _ => rfl).move rfl (by simp [Place.resetting]) h.reading)
  | leftovers hplace =>
    rw [Inv, hplace] at h
    exact .inr (h.move rfl (fun _ => rfl) h.reading)
  | send hplace =>
    rw [Inv, hplace] at h
    exact .inr h.send
  | @answered line queue hplace =>
    rw [Inv, hplace] at h
    have hall : AllAnswered s.read := h.reading
    exact .inr (((h.snoc hall line hall.snoc).tell fun _ => rfl).move rfl
      (by simp [Place.resetting]) hall.snoc)
  | @answerLine line queue hplace =>
    rw [Inv, hplace] at h
    have hall : AllAnswered s.read := h.reading
    have hsnoc := h.snoc hall line hall.snoc
    rw [← hplace] at hsnoc
    exact .inr hsnoc

theorem next_inv {e : Event} (h : s.place = .returned ∨ Inv bpInstr bpInstrBytes s)
    (hnext : next bpInstr bpInstrBytes crashRVA s e = some t) :
    t.place = .returned ∨ Inv bpInstr bpInstrBytes t := by
  cases e with
  | line line =>
    obtain rfl := Option.some.inj hnext
    exact h
  | terminate =>
    obtain rfl := Option.some.inj hnext
    exact h
  | setCoverageState state =>
    obtain rfl := Option.some.inj hnext
    exact h
  | step =>
    cases h with
    | inl hreturned =>
      simp only [next, GDBThread.step, hreturned] at hnext
      cases hnext
    | inr h => exact (threadStep_of_step hnext).inv h
  | interrupted => exact .inl (returned_of_interrupted hnext)

theorem start_inv (h : Start s) : Inv bpInstr bpInstrBytes s := by
  rw [Inv, h.place, h.read]
  refine ⟨?_, by simp [Place.command], by simp [Place.resetting], ?_⟩
  · intro bp hbp henabled
    rw [h.disabled bp hbp] at henabled
    cases henabled
  · intro before line after hread
    simp at hread

theorem run_inv {start : GDBThread} {tr : List (GDBThread × Event)} (hstart : Start start)
    (hr : Run (next bpInstr bpInstrBytes crashRVA) start tr s) :
    s.place = .returned ∨ Inv bpInstr bpInstrBytes s :=
  hr.invariant (I := fun s => s.place = .returned ∨ Inv bpInstr bpInstrBytes s)
    (.inr (start_inv hstart)) next_inv

/-- In every run, a hard reset that reaches `RESETTED` is complete exactly if no SIGTRAP of one
of our breakpoints was read since the enable-all command was made, whatever is still coming,
and breakpoints that overlap agree on the bytes they share. -/
theorem hard_reset_iff {start : GDBThread} {tr : List (GDBThread × Event)} {e : Event}
    (hstart : Start start) (hr : Run (next bpInstr bpInstrBytes crashRVA) start tr s)
    (hreset : s.place.resetting = true) (hnext : next bpInstr bpInstrBytes crashRVA s e = some t)
    (hdone : t.place = .wait) (coming : List Line) :
    ResetComplete bpInstr bpInstrBytes t coming ↔
      (∀ given, ¬ Hit (addresses t.allBreakpoints) t.read coming given) ∧
        OverlapsAgree bpInstr bpInstrBytes (addresses t.allBreakpoints) := by
  obtain hreturned | h := run_inv hstart hr
  · rw [hreturned] at hreset
    cases hreset
  · obtain ⟨hplace, rfl⟩ | ⟨line, queue, hplace, rfl⟩ := reset_end hreset hdone hnext
    · rw [Inv, hplace] at h
      have hsent : ResetInv bpInstr bpInstrBytes (.send []) s.allBreakpoints s.resetted.toGdb
          s.read := h.tell fun _ => rfl
      exact hsent.complete_iff (s := s.resetted) h.reading rfl rfl coming
    · rw [Inv, hplace] at h
      have hall : AllAnswered s.read := h.reading
      have hsnoc : ResetInv bpInstr bpInstrBytes .answer s.allBreakpoints s.resetted.toGdb
          (s.read ++ [(line, false)]) :=
        (h.snoc hall line hall.snoc).tell fun _ => rfl
      exact @ResetInv.complete_iff bpInstr bpInstrBytes
        { s with m_gdbOutputQueue := queue, read := s.read ++ [(line, false)] }.resetted
        .answer hsnoc hall.snoc rfl rfl coming

def trap : Line := "Program received signal SIGTRAP, Trace/breakpoint trap.".toList

def undefinedCommand : Line := "Undefined command: \"fluffi\".  Try \"help\".".toList

def twoBreakpoints : GDBThread where
  m_gdbOutputQueue := []
  m_gdbThreadShouldTerminate := false
  m_coverageState := .DUMPED
  m_exOutput := { DebugExecutionOutput.default with
    m_terminationType := .CLEAN
    m_terminationDescription := "The target executed without any exception" }
  m_exitStatus := 0
  coveredBasicBlocks := []
  allBreakpoints :=
    [⟨0x1000, 0x55, ⟨0, 0x1000⟩, false⟩, ⟨0x2000, 0x55, ⟨0, 0x2000⟩, false⟩]
  blocksCoveredSinceLastReset := []
  toGdb := [.c]
  place := .wait
  read := []

/-- A hard reset while the target stays quiet, up to the end of the answer. -/
def quietReset : List Event :=
  [.setCoverageState .SHOULD_RESET_HARD, .step, .step, .step, .step, .line undefinedCommand]

theorem hard_reset_quiet : ∃ s t, (∃ tr, Run (next 0xcc .one fun _ _ => none) twoBreakpoints tr s) ∧
    next 0xcc .one (fun _ _ => none) s .step = some t ∧ t.m_coverageState = .RESETTED ∧
      ∀ coming, ResetComplete 0xcc .one t coming := by
  have hrun : (exec (next 0xcc .one fun _ _ => none) twoBreakpoints quietReset).any (fun r =>
      r.2.place.resetting && (next 0xcc .one (fun _ _ => none) r.2 .step).any fun t =>
        t.place = .wait && t.m_coverageState = .RESETTED &&
          t.read = [(undefinedCommand, false)] &&
            addresses t.allBreakpoints = [0x1000, 0x2000]) = true := by
    decide +kernel
  obtain ⟨⟨tr, s⟩, hexec, hrun⟩ := (Option.any_eq_true _ _).mp hrun
  rw [Bool.and_eq_true] at hrun
  obtain ⟨t, hnext, ht⟩ := (Option.any_eq_true _ _).mp hrun.2
  simp only [Bool.and_eq_true, decide_eq_true_eq] at ht
  obtain ⟨⟨⟨hdone, hresetted⟩, hread⟩, haddresses⟩ := ht
  have hr := run_of_exec hexec
  have hstart : Start twoBreakpoints := ⟨rfl, by decide, rfl⟩
  refine ⟨s, t, ⟨tr, hr⟩, hnext, hresetted, ?_⟩
  intro coming
  rw [hard_reset_iff hstart hr hrun.1 hnext hdone coming, hread, haddresses]
  refine ⟨?_, overlapsAgree_of_apart (by decide)⟩
  rintro given ⟨before, line, after, hsame, hsignal, _⟩
  have hline : (line, given) ∈ [(undefinedCommand, false)] := by
    rw [hsame]
    exact List.mem_append_right _ List.mem_cons_self
  obtain rfl : line = undefinedCommand := (Prod.mk.inj (List.mem_singleton.mp hline)).1
  exact absurd hsignal (by decide +kernel)

/-- One breakpoint is hit between two hard resets, and the other one after the command of the
second reset was made. -/
def lateHit : List Event :=
  quietReset ++ [.step, .line trap, .line "0x0000000000001001 in ?? ()".toList,
    .step, .step, .step, .step, .step, .setCoverageState .SHOULD_RESET_HARD, .step, .step, .step,
    .line trap, .line "0x0000000000002001 in ?? ()".toList,
    .step, .step, .step, .step, .step, .line undefinedCommand]

theorem late_hit_stays_disabled : Start twoBreakpoints ∧ ∃ tr s t,
    Run (next 0xcc .one fun _ _ => none) twoBreakpoints tr s ∧ s.place = .answer ∧
      next 0xcc .one (fun _ _ => none) s .step = some t ∧ t.m_coverageState = .RESETTED ∧
        ¬ ResetComplete 0xcc .one t [] := by
  have hrun : (exec (next 0xcc .one fun _ _ => none) twoBreakpoints lateHit).any (fun r =>
      decide (r.2.place = .answer) && (next 0xcc .one (fun _ _ => none) r.2 .step).any fun t =>
        t.m_coverageState = .RESETTED && t.allBreakpoints.any fun bp => bp.m_isEnabled = false)
      = true := by
    decide +kernel
  obtain ⟨⟨tr, s⟩, hexec, hrun⟩ := (Option.any_eq_true _ _).mp hrun
  rw [Bool.and_eq_true, decide_eq_true_eq] at hrun
  obtain ⟨t, hnext, ht⟩ := (Option.any_eq_true _ _).mp hrun.2
  rw [Bool.and_eq_true, decide_eq_true_eq, List.any_eq_true] at ht
  obtain ⟨hresetted, bp, hbp, hdisabled⟩ := ht
  refine ⟨⟨rfl, by decide, rfl⟩, tr, s, t, run_of_exec hexec, hrun.1, hnext, hresetted, ?_⟩
  intro hcomplete
  have henabled := hcomplete.enabled bp hbp
  rw [of_decide_eq_true hdisabled] at henabled
  cases henabled

end Fluffi.Runner.Gdb
