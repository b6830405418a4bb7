import Fluffi.CaRRoT.Ints
import Fluffi.Systems.PipelineRuns

/-! The correlation of strings with the integers that may be their lengths. Each string is a block,
and a pool of workers looks for the integers of it. The number of workers is what half of the
processors leave beside the two collectors, which may be nothing. -/

namespace Fluffi.CaRRoT

open Fluffi.Systems Fluffi.Systems.Pipeline

structure IntStringGroupCorrelation where
  intBreaks : ℤ × ℤ
  strBreaks : ℤ × ℤ
  deriving DecidableEq

/-- `pcomp` is a map, as its pairs of keys and values. -/
structure Block where
  t : List Text
  offsets : IntStringGroupCorrelation
  pcomp : List (ℕ × ℤ)
  p : List ℤ
  length : List FoundInt
  deriving DecidableEq

/-- The integers before a string that have its length as value. -/
def lengthsOf (ints : List FoundInt) (s : Text) : List FoundInt :=
  ints.filter fun i => i.pos < s.pos ∧ i.valU = s.len

/-- What a worker makes of a block, and whether it passes it on. -/
def intWorker (ints : List FoundInt) (b : Block) : Option Block :=
  match b.t with
  | [] => none
  | s :: _ =>
    let found : Block :=
      { b with
        length := b.length ++ lengthsOf ints s
        pcomp := (b.p.zipIdx.filter fun val => val.1 ≠ 0).map fun val => (val.2, val.1)
        p := [] }
    if found.length ≠ [] ∨ found.pcomp ≠ [] then some found else none

/-- The block that is sent for a string. -/
def blockOf (size : ℕ) (s : Text) : Block := ⟨[s], ⟨(0, 0), (0, 0)⟩, [], List.replicate size 0, []⟩

/-- The number of workers beside `sams` collectors. -/
def cpus (strs numCPU sams : ℕ) : ℤ := min (strs : ℤ) ((numCPU / 2 : ℕ) - sams : ℤ)

def correlateIntStrings (numCPU : ℕ) (strs : List Text) (ints : List FoundInt) :
    Params Block Block where
  workers := (cpus strs.length numCPU 2).toNat
  collectors := 2
  jobCap := 10
  resultCap := 1000
  doneCap := (cpus strs.length numCPU 2 + 2).toNat
  work := intWorker ints

/-- The block of a string with its lengths. -/
def lengthBlock (ints : List FoundInt) (s : Text) : Block :=
  ⟨[s], ⟨(0, 0), (0, 0)⟩, [], [], lengthsOf ints s⟩

/-- What the correlation of all strings in sequence finds. -/
def sequentialBlocks (strs : List Text) (ints : List FoundInt) : List Block :=
  strs.filterMap fun s => if lengthsOf ints s = [] then none else some (lengthBlock ints s)

/-- However the goroutines are scheduled, the correlation terminates, and has found what the
sequential one finds. The file has `size` bytes. -/
structure CorrelatesAll (numCPU size : ℕ) (strs : List Text) (ints : List FoundInt) : Prop where
  bounded : ∃ N, ∀ n s,
    Reaches (correlateIntStrings numCPU strs ints) (strs.map (blockOf size)) n s → n ≤ N
  progress : ∀ n s,
    Reaches (correlateIntStrings numCPU strs ints) (strs.map (blockOf size)) n s →
      s.main ≠ .returned → ∃ t, Step (correlateIntStrings numCPU strs ints) s t
  blocks : ∀ n s,
    Reaches (correlateIntStrings numCPU strs ints) (strs.map (blockOf size)) n s →
      s.main = .returned → s.collected.Perm (sequentialBlocks strs ints)

section Correlation

variable {numCPU size : ℕ} {strs : List Text} {ints : List FoundInt}

/-- The table of a block is zero, so that only its lengths count. -/
theorem intWorker_blockOf (s : Text) :
    intWorker ints (blockOf size s) =
      if lengthsOf ints s = [] then none else some (lengthBlock ints s) := by
  have hpcomp : (List.replicate size (0 : ℤ)).zipIdx.filter (fun val => val.1 ≠ 0) = [] := by
    refine List.filter_eq_nil_iff.mpr fun val hval => ?_
    have hzero := List.eq_of_mem_replicate (List.fst_mem_of_mem_zipIdx hval)
    simp [hzero]
  simp only [intWorker, blockOf, hpcomp, List.nil_append, List.map_nil, ne_eq,
    not_true_eq_false, or_false, lengthBlock, ite_not]

theorem filterMap_intWorker :
    (strs.map (blockOf size)).filterMap (intWorker ints) = sequentialBlocks strs ints := by
  rw [List.filterMap_map, sequentialBlocks]
  exact List.filterMap_congr fun s _ => intWorker_blockOf s

theorem sequentialBlocks_eq_nil_iff :
    sequentialBlocks strs ints = [] ↔ ∀ s ∈ strs, lengthsOf ints s = [] := by
  rw [sequentialBlocks, List.filterMap_eq_nil_iff]
  refine forall₂_congr fun s _ => ?_
  split
  · rename_i hnil
    exact ⟨fun _ => hnil, fun _ => rfl⟩
  · rename_i hne
    exact ⟨fun h => absurd h (Option.some_ne_none _), fun h => absurd h hne⟩

theorem correlatesAll_iff_completes :
    CorrelatesAll numCPU size strs ints ↔
      Completes (correlateIntStrings numCPU strs ints) (strs.map (blockOf size)) := by
  have hwork : (strs.map (blockOf size)).filterMap (correlateIntStrings numCPU strs ints).work =
      sequentialBlocks strs ints := filterMap_intWorker
  constructor
  · rintro ⟨hbounded, hprogress, hblocks⟩
    exact ⟨hbounded, hprogress, by rwa [hwork]⟩
  · rintro ⟨hbounded, hprogress, hcollected⟩
    exact ⟨hbounded, hprogress, by rwa [hwork] at hcollected⟩

theorem workers_pos_iff :
    1 ≤ (correlateIntStrings numCPU strs ints).workers ↔ 1 ≤ strs.length ∧ 6 ≤ numCPU := by
  change 1 ≤ (cpus strs.length numCPU 2).toNat ↔ _
  rw [cpus]
  omega

/-- The correlation is that of the sequential program if there are at least six processors. With
fewer there is no worker, and then it is only if no string has a length and there are few. -/
theorem correlatesAll_iff (numCPU size : ℕ) (strs : List Text) (ints : List FoundInt) :
    CorrelatesAll numCPU size strs ints ↔
      6 ≤ numCPU ∨
        strs.length ≤ 10 ∧ ∀ s ∈ strs, ∀ i ∈ ints, ¬(i.pos < s.pos ∧ i.valU = s.len) := by
  have hnone : (∀ s ∈ strs, lengthsOf ints s = []) ↔
      ∀ s ∈ strs, ∀ i ∈ ints, ¬(i.pos < s.pos ∧ i.valU = s.len) := by
    simp only [lengthsOf, List.filter_eq_nil_iff, decide_eq_true_eq]
  rw [correlatesAll_iff_completes,
    completes_iff (Nat.le_succ 1) (show 1 ≤ 10 by omega) (show 1 ≤ 1000 by omega),
    workers_pos_iff, List.length_map, ← hnone, ← sequentialBlocks_eq_nil_iff]
  change _ ∨ _ ∧ (strs.map (blockOf size)).filterMap (intWorker ints) = [] ↔ _
  rw [filterMap_intWorker]
  constructor
  · rintro (⟨-, hcpu⟩ | h)
    · exact .inl hcpu
    · exact .inr h
  · rintro (hcpu | h)
    · cases strs with
      | nil => exact .inr ⟨Nat.zero_le _, rfl⟩
      | cons s strs => exact .inl ⟨Nat.succ_pos _, hcpu⟩
    · exact .inr h

/-- Four processors, and a string with its length before it. -/
theorem not_correlatesAll_four :
    ¬CorrelatesAll 4 7 [⟨.ascii, 2, 5, true⟩] [⟨.uint16be, 2, 0, 5, 5⟩] := by
  rw [correlatesAll_iff_completes,
    completes_iff (Nat.le_succ 1) (show 1 ≤ 10 by omega) (show 1 ≤ 1000 by omega)]
  decide

end Correlation

end Fluffi.CaRRoT
