import Fluffi.Kfuzz.Prepared

/-! The preparation in any run of the dialogue between the runner and the emulator, from the start
of the emulator. Chunks of commands, lines that are printed and lines that are read come in any
order, and the preparation ends as if the target had answered each command at once. -/

namespace Fluffi.Kfuzz

open Fluffi.Runner.Gdb Fluffi.Shared Fluffi.Systems
open Fluffi.Runner.Gdb.Dialogue (reply clearing cleared nextOf)

/-! ### The preparation by its responses -/

section Runner

variable (splitPathIntoDirectoryAndFileName : Line → Line × Line) (modulesToCover : List Module)
  (blocksToCover : List FluffiBasicBlock) (bpInstrBytes : ℕ)

variable {splitPathIntoDirectoryAndFileName modulesToCover blocksToCover bpInstrBytes}
variable {G : Type*} (answer : G → Line → List Line × G) (g : G)

end Runner

/-! ### No response is cut -/

/-- Nothing of the target is taken for the end of a response: register names are words, and no
module or section has a name with it. -/
structure Target.Quiet (t : Target) : Prop where
  words : ∀ r ∈ Target.shownRegisters t.registers, ' ' ∉ r.name
  names : ∀ s ∈ t.shown, ¬ "Undefined command".toList <:+: s.names

theorem endsResponse_of_not_infix {front rest : Line} (hfront : 'U' ∉ front)
    (hrest : ¬ "Undefined command".toList <:+: rest) :
    endsResponse (front ++ rest ++ ['\r']) = false := by
  rw [endsResponse, ← Bool.not_eq_true, contains_iff, infix_append_cons_iff (by decide)]
  rintro (h | h)
  · exact hrest ((Occurrences.infix_append_iff_of_head_notMem hfront).mp h)
  · exact absurd h (by decide)

section Quiet

variable {t : Target} {size : ℕ}

theorem endsResponse_registerLine {r : Register} (hword : ' ' ∉ r.name) :
    endsResponse (Target.registerLine r ++ ['\r']) = false := by
  rw [endsResponse, ← Bool.not_eq_true, contains_iff, registerLine_eq]
  intro h
  have hfront : "Undefined co".toList ++ ['m'] <:+: r.name ++ behindName r :=
    List.IsInfix.trans ⟨[], "mand".toList, rfl⟩ h
  rw [Occurrences.infix_append_iff_of_notMem
    (notMem_behindName (by decide) (by decide) (by decide) r)] at hfront
  exact hword (hfront.subset (by decide))

theorem endsResponse_line {s : Shown} (h : ¬ "Undefined command".toList <:+: s.names) :
    endsResponse (s.line ++ ['\r']) = false := by
  have haddress : ∀ address, 'U' ∉ addressText 16 address :=
    notMem_addressText (by decide) (by decide) 16
  have hline : s.line = "        ".toList ++ s.addresses.addressesText 16 ++ [' '] ++ s.names := by
    rw [Shown.line_eq]
    simp
  rw [hline]
  refine endsResponse_of_not_infix ?_ h
  simp [Section.addressesText, haddress]

/-- The first module is among those that are shown. -/
theorem Target.Quiet.mainName (h : t.Quiet) : ¬ "Undefined command".toList <:+: t.mainName := by
  intro hi
  have hmem : t.modules.head t.modules_ne_nil ∈ t.modules := List.head_mem _
  have hshown : ⟨_, _, _, t.mainName⟩ ∈ t.shown :=
    List.mem_flatMap.mpr ⟨_, hmem, List.mem_cons_self⟩
  exact h.names _ hshown (hi.trans (List.suffix_append _ _).isInfix)

theorem Target.Quiet.infoInferior (h : t.Quiet) :
    ∀ line ∈ printed t.infoInferior, endsResponse line = false := by
  rw [printed, List.forall_mem_map, Target.infoInferior, List.forall_mem_cons,
    List.forall_mem_singleton]
  refine ⟨by decide, ?_⟩
  have hdec : 'U' ∉ Nat.toDigits 10 t.systemID := fun hmem =>
    absurd (Nat.isDigit_of_mem_toDigits (by decide) (by decide) hmem) (by decide)
  refine endsResponse_of_not_infix ?_ h.mainName
  simp [hdec]

theorem Target.Quiet.infoFiles (h : t.Quiet) :
    ∀ line ∈ printed t.infoFiles, endsResponse line = false := by
  rw [printed, List.forall_mem_map, infoFiles_eq, List.forall_mem_cons, List.forall_mem_map]
  exact ⟨by decide, fun s hs => endsResponse_line (h.names s hs)⟩

theorem Target.Quiet.handleIR (h : t.Quiet) :
    ∀ line ∈ printed t.handleIR, endsResponse line = false := by
  rw [printed, List.forall_mem_map, Target.handleIR, List.forall_mem_map]
  exact fun r hr => endsResponse_registerLine (h.words r hr)

end Quiet

/-! ### The preparation in any run -/

section Preparation

variable {inTime : Target → Line → Bool} {otherwise : Line → List Line}
  {split : Line → Line × Line} {modules : List Module} {blocks : List FluffiBasicBlock} {size : ℕ}
  {t : Target}

end Preparation

/-- A call: how many lines are written for it, and how many are printed. -/
def turn (command : Line) (written printed : ℕ) : List Dialogue.Event :=
  [.call command, .write] ++ List.replicate written .gdb ++ List.replicate printed .queue ++
    List.replicate printed .pop

end Fluffi.Kfuzz
