import Mathlib.Data.List.Pairwise
import Fluffi.Runner.GdbSignals

/-! The breakpoints of the debugger thread and the bytes that it writes for them. Breakpoints that
are closer than their instruction is long overwrite each other. -/

namespace Fluffi.Runner.Gdb

variable {bpInstr : UInt32} {bpInstrBytes : BpInstrBytes} {known : List UInt64}

/-! ### The breakpoints -/

theorem addresses_disable (address : UInt64) (bps : List GDBBreakpoint) :
    addresses (disable address bps) = addresses bps := by
  rw [addresses, addresses, disable, List.map_map]
  apply List.map_congr_left
  intro bp _
  simp only [Function.comp_apply]
  split <;> rfl

theorem find_isSome_iff (bps : List GDBBreakpoint) (address : UInt64) :
    (bps.find? fun bp => bp.m_absoluteAdress == address).isSome ↔ address ∈ addresses bps := by
  simp [addresses, List.find?_isSome]

/-- The breakpoint of a signal is in the map exactly if its address is known. -/
theorem breakpointAt_isSome_iff (bps : List GDBBreakpoint) (signalAddress : UInt64) :
    (breakpointAt bps signalAddress).isSome ↔
      signalAddress ∈ addresses bps ∨ signalAddress - 1 ∈ addresses bps := by
  rw [← find_isSome_iff, ← find_isSome_iff, breakpointAt]
  cases bps.find? fun bp => bp.m_absoluteAdress == signalAddress with
  | none => simp
  | some bp => simp

theorem breakpointAt_mem {bps : List GDBBreakpoint} {signalAddress : UInt64} {bp : GDBBreakpoint}
    (h : breakpointAt bps signalAddress = some bp) : bp ∈ bps := by
  simp only [breakpointAt] at h
  split at h
  case h_1 found hfound =>
    obtain rfl := Option.some.inj h
    exact List.mem_of_find?_eq_some hfound
  case h_2 => exact List.mem_of_find?_eq_some h

theorem mem_disable {address : UInt64} {bps : List GDBBreakpoint} {bp : GDBBreakpoint}
    (h : bp ∈ disable address bps) (henabled : bp.m_isEnabled = true) :
    bp ∈ bps ∧ bp.m_absoluteAdress ≠ address := by
  obtain ⟨old, hold, rfl⟩ := List.mem_map.mp h
  split at henabled
  · cases henabled
  case isFalse hne =>
    rw [if_neg hne]
    exact ⟨hold, hne⟩

theorem exists_disabled {address : UInt64} {bps : List GDBBreakpoint}
    (h : address ∈ addresses bps) :
    ∃ bp ∈ disable address bps, bp.m_isEnabled = false ∧ bp.m_absoluteAdress = address := by
  obtain ⟨bp, hbp, rfl⟩ := List.mem_map.mp h
  refine ⟨{ bp with m_isEnabled := false }, ?_, rfl, rfl⟩
  apply List.mem_map.mpr
  exact ⟨bp, hbp, if_pos rfl⟩

/-! ### What was written -/

/-- Where the instructions of two breakpoints overlap, they have the same bytes. -/
def OverlapsAgree (bpInstr : UInt32) (bpInstrBytes : BpInstrBytes) (known : List UInt64) :
    Prop :=
  ∀ a ∈ known, ∀ b ∈ known, ∀ i < bpInstrBytes.count, ∀ j < bpInstrBytes.count,
    a + i = b + j → byteOf bpInstr i = byteOf bpInstr j

/-- Breakpoints that are far enough apart do not overlap. -/
theorem overlapsAgree_of_apart
    (h : known.Pairwise fun a b => bpInstrBytes.count ≤ a - b ∧ bpInstrBytes.count ≤ b - a) :
    OverlapsAgree bpInstr bpInstrBytes known := by
  intro a ha b hb i hi j hj hsame
  by_cases hab : a = b
  · rw [hab, UInt64.add_right_inj] at hsame
    rw [hsame]
  · have : Std.Symm fun a b : UInt64 =>
        bpInstrBytes.count ≤ a - b ∧ bpInstrBytes.count ≤ b - a := ⟨fun _ _ => And.symm⟩
    obtain ⟨hleft, hright⟩ := h.forall ha hb hab
    exfalso
    grind

/-- Four bytes of a breakpoint do not fit between the blocks at `0x1000` and `0x1002`. -/
example : ¬ OverlapsAgree 0xe7f001f0 .four [0x1000, 0x1002] := fun h =>
  absurd (h 0x1000 (by decide) 0x1002 (by decide) 3 (by decide) 1 (by decide) rfl) (by decide)

theorem byteAt_set_eq_some_iff {address a : UInt64} {value : UInt32} {v : UInt8} :
    GDBCommand.byteAt address (.set bpInstrBytes a value) = some v ↔
      ∃ i < bpInstrBytes.count, address = a + i ∧ v = byteOf value i := by
  rw [GDBCommand.byteAt, Option.ite_none_right_eq_some, Option.some.injEq]
  constructor
  · rintro ⟨hi, rfl⟩
    exact ⟨address - a, hi, by grind, rfl⟩
  · rintro ⟨i, hi, rfl, rfl⟩
    have hback : a + i - a = i := by grind
    rw [hback]
    exact ⟨hi, rfl⟩

/-- Which addresses a command writes does not depend on the value. -/
theorem byteAt_set_isSome_iff {address a : UInt64} {value : UInt32} :
    (GDBCommand.byteAt address (.set bpInstrBytes a value)).isSome ↔
      address - a < bpInstrBytes.count := by
  rw [GDBCommand.byteAt]
  split_ifs with h
  · simp [h]
  · simp [h]

theorem lastWritten_append {address : UInt64} {commands past : List GDBCommand} :
    lastWritten address (commands ++ past) =
      (lastWritten address commands).or (lastWritten address past) :=
  List.findSome?_append

theorem lastWritten_isSome_iff {address : UInt64} {commands : List GDBCommand} :
    (lastWritten address commands).isSome ↔
      ∃ command ∈ commands, (GDBCommand.byteAt address command).isSome :=
  List.findSome?_isSome_iff

/-- A byte of the instruction of some breakpoint was last written to the address. -/
def Placed (bpInstr : UInt32) (bpInstrBytes : BpInstrBytes) (known : List UInt64)
    (toGdb : List GDBCommand) (address : UInt64) : Prop :=
  ∃ a ∈ known, ∃ v, GDBCommand.byteAt address (.set bpInstrBytes a bpInstr) = some v ∧
    lastWritten address toGdb = some v

/-- The address belongs to the instruction of a breakpoint that is disabled. -/
def Removed (bpInstrBytes : BpInstrBytes) (bps : List GDBBreakpoint) (address : UInt64) : Prop :=
  ∃ bp ∈ bps, bp.m_isEnabled = false ∧ address - bp.m_absoluteAdress < bpInstrBytes.count

theorem Placed.congr {toGdb toGdb' : List GDBCommand} {address : UInt64}
    (h : Placed bpInstr bpInstrBytes known toGdb address)
    (hsame : lastWritten address toGdb' = lastWritten address toGdb) :
    Placed bpInstr bpInstrBytes known toGdb' address := by
  obtain ⟨a, ha, v, hv, hlast⟩ := h
  exact ⟨a, ha, v, hv, hsame.trans hlast⟩

/-- Where the overlaps agree, it is the right byte. -/
theorem Placed.eq (h : OverlapsAgree bpInstr bpInstrBytes known) {toGdb : List GDBCommand}
    {a i : UInt64} (ha : a ∈ known) (hi : i < bpInstrBytes.count)
    (hplaced : Placed bpInstr bpInstrBytes known toGdb (a + i)) :
    lastWritten (a + i) toGdb = some (byteOf bpInstr i) := by
  obtain ⟨b, hb, v, hv, hlast⟩ := hplaced
  obtain ⟨j, hj, hsame, rfl⟩ := byteAt_set_eq_some_iff.mp hv
  rw [hlast, h a ha b hb i hi j hj hsame]

/-- Sending instructions of breakpoints places them. -/
theorem placed_of_sent {commands past : List GDBCommand} {address : UInt64}
    (hset : ∀ command ∈ commands, ∃ a ∈ known, command = .set bpInstrBytes a bpInstr)
    (hsome : (lastWritten address commands).isSome) :
    Placed bpInstr bpInstrBytes known (commands ++ past) address := by
  obtain ⟨v, hv⟩ := Option.isSome_iff_exists.mp hsome
  obtain ⟨command, hcommand, hbyte⟩ := List.exists_of_findSome?_eq_some hv
  obtain ⟨a, ha, rfl⟩ := hset command hcommand
  exact ⟨a, ha, v, hbyte, by rw [lastWritten_append, hv, Option.some_or]⟩

theorem Removed.disable {bps : List GDBBreakpoint} {address a : UInt64}
    (h : Removed bpInstrBytes bps address) : Removed bpInstrBytes (disable a bps) address := by
  obtain ⟨bp, hbp, hdisabled, hunder⟩ := h
  by_cases ha : bp.m_absoluteAdress = a
  · exact ⟨{ bp with m_isEnabled := false },
      List.mem_map.mpr ⟨bp, hbp, if_pos ha⟩, rfl, hunder⟩
  · exact ⟨bp, List.mem_map.mpr ⟨bp, hbp, if_neg ha⟩, hdisabled, hunder⟩

end Fluffi.Runner.Gdb
