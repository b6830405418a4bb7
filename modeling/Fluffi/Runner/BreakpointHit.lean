import Fluffi.Runner.BreakpointMemory
import Fluffi.Runner.GdbText

/-! Which breakpoint a stop belongs to. An architecture reports either the address of the
breakpoint or the address behind it. `handleSignal` does not know which, so it looks the
reported address up first and the address before it second. -/

namespace Fluffi.Runner.Gdb

open Shared

/-- Where all breakpoints of an architecture stop. -/
inductive StopConvention where
  | atBreakpoint
  | behindBreakpoint
  deriving DecidableEq, Repr

def StopConvention.reported : StopConvention → UInt64 → UInt64
  | .atBreakpoint, address => address
  | .behindBreakpoint, address => address + 1

/-- The hit of `bp` is attributed to it: its block is covered, it alone is disabled, its
original bytes are put back, and the target resumes at its address. -/
structure AttributedTo (bpInstrBytes : BpInstrBytes) (bp : GDBBreakpoint) (s t : GDBThread) :
    Prop where
  covered : t.blocksCoveredSinceLastReset = s.blocksCoveredSinceLastReset.insert bp.m_fbb
  disabled : t.allBreakpoints = s.allBreakpoints.map fun b =>
    if b = bp then { b with m_isEnabled := false } else b
  commands : t.toGdb = .jump bp.m_absoluteAdress ::
    .set bpInstrBytes bp.m_absoluteAdress bp.m_originalBytes :: s.toGdb

theorem find_address {bps : List GDBBreakpoint} (hbps : (addresses bps).Nodup)
    {bp : GDBBreakpoint} (hbp : bp ∈ bps) :
    bps.find? (fun b => b.m_absoluteAdress == bp.m_absoluteAdress) = some bp := by
  cases hfind : bps.find? fun b => b.m_absoluteAdress == bp.m_absoluteAdress with
  | none => exact absurd (List.find?_eq_none.mp hfind bp hbp) (by simp)
  | some b =>
    have hb : b ∈ bps := List.mem_of_find?_eq_some hfind
    have haddress : b.m_absoluteAdress = bp.m_absoluteAdress := by
      simpa using List.find?_some hfind
    rw [List.inj_on_of_nodup_map hbps hb hbp haddress]

theorem disable_eq {bps : List GDBBreakpoint} (hbps : (addresses bps).Nodup)
    {bp : GDBBreakpoint} (hbp : bp ∈ bps) :
    disable bp.m_absoluteAdress bps =
      bps.map fun b => if b = bp then { b with m_isEnabled := false } else b := by
  apply List.map_congr_left
  intro b hb
  by_cases hbbp : b = bp
  · rw [hbbp, if_pos rfl, if_pos rfl]
  · have haddress : b.m_absoluteAdress ≠ bp.m_absoluteAdress := fun h =>
      hbbp (List.inj_on_of_nodup_map hbps hb hbp h)
    rw [if_neg haddress, if_neg hbbp]

/-- The guess of the convention goes wrong exactly if the stop behind a breakpoint is the
address of another one. -/
theorem breakpointAt_eq_some_iff {bps : List GDBBreakpoint} (hbps : (addresses bps).Nodup)
    {bp : GDBBreakpoint} (hbp : bp ∈ bps) (convention : StopConvention) :
    breakpointAt bps (convention.reported bp.m_absoluteAdress) = some bp ↔
      convention = .atBreakpoint ∨
        ∀ b ∈ bps, b.m_absoluteAdress ≠ bp.m_absoluteAdress + 1 := by
  cases convention with
  | atBreakpoint => simp [breakpointAt, StopConvention.reported, find_address hbps hbp]
  | behindBreakpoint =>
    have hback : bp.m_absoluteAdress + 1 - 1 = bp.m_absoluteAdress := by
      rw [UInt64.add_sub_cancel]
    simp only [breakpointAt, StopConvention.reported, hback, find_address hbps hbp]
    cases hfind : bps.find? fun b => b.m_absoluteAdress == bp.m_absoluteAdress + 1 with
    | none => simpa using hfind
    | some b =>
      have hb := List.mem_of_find?_eq_some hfind
      have haddress : b.m_absoluteAdress = bp.m_absoluteAdress + 1 := by
        simpa using List.find?_some hfind
      have hne : b ≠ bp := by
        rintro rfl
        simp at haddress
      simp only [Option.some.injEq, hne, reduceCtorEq, false_or, false_iff, not_forall]
      exact ⟨b, hb, by simp [haddress]⟩

/-- For every map (whose keys are distinct) and each of the two conventions: the hit of a
breakpoint is attributed to it exactly if the breakpoint stops at its address or no breakpoint
is at the next one. -/
theorem hit_attributed_iff {bpInstrBytes : BpInstrBytes} {s : GDBThread}
    (hbps : (addresses s.allBreakpoints).Nodup) {bp : GDBBreakpoint}
    (hbp : bp ∈ s.allBreakpoints) (convention : StopConvention)
    (leftoverOf : Option (List GDBCommand)) {name addressLine : Line}
    (htrap : isSIGTRAP name = true)
    (hstop : stoull addressLine = some (convention.reported bp.m_absoluteAdress)) :
    AttributedTo bpInstrBytes bp s (s.handleAddress bpInstrBytes leftoverOf name addressLine) ↔
      convention = .atBreakpoint ∨
        ∀ b ∈ s.allBreakpoints, b.m_absoluteAdress ≠ bp.m_absoluteAdress + 1 := by
  rw [← breakpointAt_eq_some_iff hbps hbp convention]
  constructor
  · intro h
    have hcommands := h.commands
    simp only [GDBThread.handleAddress, hstop, htrap, if_true] at hcommands
    cases hat : breakpointAt s.allBreakpoints (convention.reported bp.m_absoluteAdress) with
    | none =>
      simp only [hat] at hcommands
      have hlength := congrArg List.length hcommands
      simp only [List.length_cons] at hlength
      omega
    | some b =>
      simp only [hat, List.cons.injEq, GDBCommand.jump.injEq] at hcommands
      rw [List.inj_on_of_nodup_map hbps (breakpointAt_mem hat) hbp hcommands.1]
  · intro h
    simp only [GDBThread.handleAddress, hstop, htrap, if_true, h]
    exact ⟨rfl, disable_eq hbps hbp, rfl⟩

/-- Two blocks of one byte each, and the breakpoint of the second one disabled. -/
def adjacentBreakpoints : List GDBBreakpoint :=
  [⟨0x401000, 0xc3, ⟨1, 0x1000⟩, true⟩, ⟨0x401001, 0x90, ⟨1, 0x1001⟩, false⟩]

def adjacent : GDBThread where
  m_gdbOutputQueue := []
  m_gdbThreadShouldTerminate := false
  m_coverageState := .RESETTED
  m_exOutput := .default
  m_exitStatus := 0
  coveredBasicBlocks := []
  allBreakpoints := adjacentBreakpoints
  blocksCoveredSinceLastReset := []
  toGdb := []
  place := .address none "SIGTRAP".toList
  read := []

theorem hit_attributed_adjacent :
    AttributedTo .one ⟨0x401000, 0xc3, ⟨1, 0x1000⟩, true⟩ adjacent
      (adjacent.handleAddress .one none "SIGTRAP".toList "0x401000 in f ()".toList) :=
  (@hit_attributed_iff .one adjacent (by decide) ⟨0x401000, 0xc3, ⟨1, 0x1000⟩, true⟩
    (by decide) .atBreakpoint none "SIGTRAP".toList "0x401000 in f ()".toList (by decide)
    (by decide)).mpr (.inl rfl)

/-- The first of them is hit and its stop is reported one byte behind it: the second one is
taken for it, though it is disabled. -/
theorem hit_of_neighbour :
    (adjacent.handleAddress .one none "SIGTRAP".toList "0x401001 in f ()".toList).toGdb =
        [.jump 0x401001, .set .one 0x401001 0x90] ∧
      (adjacent.handleAddress .one none "SIGTRAP".toList
        "0x401001 in f ()".toList).blocksCoveredSinceLastReset = [⟨1, 0x1001⟩] ∧
      ¬ AttributedTo .one ⟨0x401000, 0xc3, ⟨1, 0x1000⟩, true⟩ adjacent
        (adjacent.handleAddress .one none "SIGTRAP".toList "0x401001 in f ()".toList) := by
  refine ⟨by decide, by decide, fun h => ?_⟩
  have hcommands := h.commands
  revert hcommands
  decide

end Fluffi.Runner.Gdb
