import Fluffi.Shared.Evaluation
import Mathlib.Data.Finset.Sort
import Mathlib.Data.Multiset.Filter

/-! The blocks that a trace covers. The program counters in the range of a module are reported
for it and taken out of the set, while the loop goes over the set. An iterator to an element
that is erased is no longer valid. -/

namespace Fluffi.Runner.Qemu

open Shared

/-- An entry of the module table. -/
structure ModuleRange where
  id : UInt32
  start : UInt64
  stop : UInt64
  deriving DecidableEq

namespace ModuleRange

def Contains (m : ModuleRange) (pc : UInt64) : Prop := m.start ≤ pc ∧ pc < m.stop

/-- The comparison in the code. -/
def Reaches (m : ModuleRange) (pc : UInt64) : Prop := pc ≤ m.stop ∧ m.start ≤ pc

instance (m : ModuleRange) (pc : UInt64) : Decidable (m.Contains pc) := instDecidableAnd

instance (m : ModuleRange) (pc : UInt64) : Decidable (m.Reaches pc) := instDecidableAnd

def block (m : ModuleRange) (pc : UInt64) : FluffiBasicBlock := ⟨m.id.toInt32, pc - m.start⟩

end ModuleRange

def DisjointRanges (modt : List ModuleRange) : Prop :=
  modt.Pairwise fun m m' => ∀ pc, m.Contains pc → ¬ m'.Contains pc

structure Matching where
  bbs : Finset UInt64
  m_blocks : List FluffiBasicBlock
  deriving DecidableEq

/-- The inner loop, with the elements it has yet to visit. To increment the iterator of an
erased element is undefined, unless iterators survive that. -/
def matchModule (survives : Bool) (m : ModuleRange) :
    List UInt64 → Matching → Option Matching
  | [], s => some s
  | i :: its, s =>
    if m.Reaches i then
      if survives then
        matchModule survives m its ⟨s.bbs.erase i, s.m_blocks ++ [m.block i]⟩
      else none
    else matchModule survives m its s

def matchModules (survives : Bool) (modt : List ModuleRange) (bbs : Finset UInt64) :
    Option Matching :=
  modt.foldlM (fun s m => matchModule survives m (s.bbs.sort (· ≤ ·)) s) ⟨bbs, []⟩

/-- One entry for each program counter of a module, the first one if there are several. -/
def entries (covers : ModuleRange → UInt64 → Bool) (modt : List ModuleRange)
    (bbs : Finset UInt64) : Multiset FluffiBasicBlock :=
  bbs.val.filterMap fun pc => (modt.find? (covers · pc)).map (·.block pc)

theorem entries_eq_zero {covers : ModuleRange → UInt64 → Bool} {modt : List ModuleRange}
    {bbs : Finset UInt64} (h : ∀ pc ∈ bbs, modt.find? (covers · pc) = none) :
    entries covers modt bbs = 0 := by
  refine Multiset.eq_zero_of_forall_notMem fun b hb => ?_
  obtain ⟨pc, hpc, hb⟩ := (Multiset.mem_filterMap _ _).mp hb
  rw [h pc hpc] at hb
  cases hb

/-! ### The loop as it is -/

theorem matchModule_eq_some_iff {m : ModuleRange} {its : List UInt64} {s s' : Matching} :
    matchModule false m its s = some s' ↔ (∀ i ∈ its, ¬ m.Reaches i) ∧ s' = s := by
  induction its with
  | nil => simp [matchModule, eq_comm]
  | cons i its ih =>
    rw [matchModule, List.forall_mem_cons]
    by_cases hi : m.Reaches i
    · simp [hi]
    · rw [if_neg hi, ih]
      simp [hi]

theorem matchModules_eq_some_iff {modt : List ModuleRange} {bbs : Finset UInt64}
    {s : Matching} :
    matchModules false modt bbs = some s ↔
      (∀ m ∈ modt, ∀ pc ∈ bbs, ¬ m.Reaches pc) ∧ s = ⟨bbs, []⟩ := by
  rw [matchModules]
  induction modt with
  | nil => simp [eq_comm]
  | cons m modt ih =>
    rw [List.foldlM_cons, List.forall_mem_cons, Option.bind_eq_bind, Option.bind_eq_some_iff]
    simp only [matchModule_eq_some_iff, Finset.mem_sort]
    constructor
    · rintro ⟨s', ⟨hm, rfl⟩, hs⟩
      obtain ⟨hmodt, rfl⟩ := ih.mp hs
      exact ⟨⟨hm, hmodt⟩, rfl⟩
    · rintro ⟨⟨hm, hmodt⟩, rfl⟩
      exact ⟨_, ⟨hm, rfl⟩, ih.mpr ⟨hmodt, rfl⟩⟩

/-- In whatever order the modules are, the blocks are reported, one entry for each program
counter in the range of a module, if and only if there is nothing to report. -/
theorem matchModules_entries_iff (modt : List ModuleRange) (bbs : Finset UInt64) :
    (∀ modt' : List ModuleRange, modt'.Perm modt → ∃ s, matchModules false modt' bbs = some s ∧
      (s.m_blocks : Multiset FluffiBasicBlock) =
        entries (fun m pc => m.Contains pc) modt bbs) ↔
      ∀ m ∈ modt, ∀ pc ∈ bbs, ¬ (m.start ≤ pc ∧ pc ≤ m.stop) := by
  constructor
  · intro h m hm pc hpc hreaches
    obtain ⟨s, hs, -⟩ := h modt (List.Perm.refl modt)
    exact (matchModules_eq_some_iff.mp hs).1 m hm pc hpc hreaches.symm
  · intro h modt' hperm
    refine ⟨⟨bbs, []⟩, matchModules_eq_some_iff.mpr ⟨fun m hm pc hpc hreaches => ?_, rfl⟩, ?_⟩
    · exact h m (hperm.mem_iff.mp hm) pc hpc hreaches.symm
    · have hnone : ∀ pc ∈ bbs, (modt.find? fun m => m.Contains pc) = none := by
        intro pc hpc
        rw [List.find?_eq_none]
        intro m hm hcontains
        obtain ⟨hstart, hstop⟩ := of_decide_eq_true hcontains
        exact h m hm pc hpc ⟨hstart, UInt64.le_of_lt hstop⟩
      exact (entries_eq_zero hnone).symm

/-- Two modules with one boundary, a program counter on it, and the table in either order. -/
def neighbours : List ModuleRange := [⟨1, 0x1000, 0x2000⟩, ⟨2, 0x2000, 0x3000⟩]

/-- The counter is at the start of the second module. The loop increments the iterator of an
erased element. Even if it survived that, the block would be reported for the first module, or
for the second one if the table had the other order. -/
theorem neighbours_not_reported :
    DisjointRanges neighbours ∧
    (¬ ∃ s, matchModules false neighbours {0x2000} = some s ∧
      (s.m_blocks : Multiset FluffiBasicBlock) =
        entries (fun m pc => m.Contains pc) neighbours {0x2000}) ∧
    entries (fun m pc => m.Contains pc) neighbours {0x2000} = {⟨2, 0⟩} ∧
    matchModules true neighbours {0x2000} = some ⟨∅, [⟨1, 0x1000⟩]⟩ ∧
    matchModules true neighbours.reverse {0x2000} = some ⟨∅, [⟨2, 0⟩]⟩ := by
  have hfirst : (⟨1, 0x1000, 0x2000⟩ : ModuleRange).Reaches 0x2000 := by decide
  have hsecond : (⟨2, 0x2000, 0x3000⟩ : ModuleRange).Reaches 0x2000 := by decide
  refine ⟨?_, ?_, by decide, ?_, ?_⟩
  · refine List.pairwise_pair.mpr ?_
    rintro pc ⟨-, hstop⟩ ⟨hstart, -⟩
    exact absurd hstart (UInt64.not_le.mpr hstop)
  · rintro ⟨s, hs, -⟩
    simp [matchModules, neighbours, matchModule, hfirst] at hs
  · simp [matchModules, neighbours, matchModule, hfirst]
    decide
  · simp [matchModules, neighbours, matchModule, hsecond]
    decide

/-! ### The order of the modules -/

theorem find?_contains_iff {modt : List ModuleRange} (h : DisjointRanges modt) {pc : UInt64}
    {m : ModuleRange} :
    modt.find? (fun m => m.Contains pc) = some m ↔ m ∈ modt ∧ m.Contains pc := by
  induction modt with
  | nil => simp
  | cons m' modt ih =>
    obtain ⟨hm', hmodt⟩ := List.pairwise_cons.mp h
    rw [List.find?_cons]
    by_cases hcontains : m'.Contains pc
    · rw [decide_eq_true hcontains]
      constructor
      · rintro heq
        obtain rfl := Option.some.inj heq
        exact ⟨List.mem_cons_self, hcontains⟩
      · rintro ⟨hm, hpc⟩
        rcases List.mem_cons.mp hm with rfl | hm
        · rfl
        · exact absurd hpc (hm' m hm pc hcontains)
    · rw [decide_eq_false hcontains]
      dsimp only
      rw [ih hmodt, List.mem_cons]
      constructor
      · rintro ⟨hm, hpc⟩
        exact ⟨.inr hm, hpc⟩
      · rintro ⟨rfl | hm, hpc⟩
        · exact absurd hpc hcontains
        · exact ⟨hm, hpc⟩

/-- What is to be reported does not depend on the order of the table. -/
theorem entries_perm {modt modt' : List ModuleRange} (hperm : modt'.Perm modt)
    (h : DisjointRanges modt) (bbs : Finset UInt64) :
    entries (fun m pc => m.Contains pc) modt' bbs =
      entries (fun m pc => m.Contains pc) modt bbs := by
  have hsymm : ∀ {m m' : ModuleRange}, (∀ pc, m.Contains pc → ¬ m'.Contains pc) →
      ∀ pc, m'.Contains pc → ¬ m.Contains pc := fun h pc hm' hm => h pc hm hm'
  have h' : DisjointRanges modt' := (hperm.pairwise_iff hsymm).mpr h
  have hfind (pc : UInt64) : modt'.find? (fun m => m.Contains pc) =
      modt.find? fun m => m.Contains pc := by
    ext m
    rw [find?_contains_iff h', find?_contains_iff h, hperm.mem_iff]
  simp only [entries, hfind]

/-! ### If iterators survived -/

theorem matchModule_survives (m : ModuleRange) (its : List UInt64) (s : Matching) :
    matchModule true m its s =
      some ⟨s.bbs.filter fun i => ¬ (i ∈ its ∧ m.Reaches i),
        s.m_blocks ++ (its.filter fun i => m.Reaches i).map m.block⟩ := by
  induction its generalizing s with
  | nil => simp [matchModule]
  | cons i its ih =>
    rw [matchModule]
    by_cases hi : m.Reaches i
    · have hfilter : (i :: its).filter (fun i => m.Reaches i) =
          i :: its.filter fun i => m.Reaches i := List.filter_cons_of_pos (by simpa using hi)
      rw [if_pos hi, if_pos rfl, ih, hfilter, List.map_cons, List.append_assoc,
        List.singleton_append]
      congr 2
      ext j
      simp only [Finset.mem_filter, Finset.mem_erase, List.mem_cons]
      by_cases hj : j = i
      · simp [hj, hi]
      · simp [hj]
    · rw [if_neg hi, ih, List.filter_cons_of_neg (by simpa using hi)]
      congr 2
      ext j
      simp only [Finset.mem_filter, List.mem_cons]
      by_cases hj : j = i
      · simp [hj, hi]
      · simp [hj]

theorem entries_cons (covers : ModuleRange → UInt64 → Bool) (m : ModuleRange)
    (modt : List ModuleRange) (bbs : Finset UInt64) :
    entries covers (m :: modt) bbs = (bbs.val.filter (covers m ·)).map m.block +
      entries covers modt (bbs.filter fun pc => ¬ covers m pc) := by
  rw [entries, entries, Finset.filter_val]
  induction bbs.val using Multiset.induction with
  | empty => simp
  | cons pc s ih =>
    rw [Multiset.filterMap_cons, ih]
    cases hpc : covers m pc with
    | true => simp [hpc]
    | false => simp [hpc, Multiset.filterMap_cons, add_left_comm]

/-- Each program counter would be reported for the first module that reaches it, the end of
its range included. -/
theorem matchModules_survives (modt : List ModuleRange) (bbs : Finset UInt64) :
    ∃ s, matchModules true modt bbs = some s ∧
      (s.m_blocks : Multiset FluffiBasicBlock) =
        entries (fun m pc => m.Reaches pc) modt bbs := by
  have hloop (s : Matching) : ∃ s', modt.foldlM
        (fun s m => matchModule true m (s.bbs.sort (· ≤ ·)) s) s = some s' ∧
      (s'.m_blocks : Multiset FluffiBasicBlock) =
        s.m_blocks + entries (fun m pc => m.Reaches pc) modt s.bbs := by
    induction modt generalizing s with
    | nil =>
      refine ⟨s, rfl, ?_⟩
      rw [entries_eq_zero fun _ _ => List.find?_nil, add_zero]
    | cons m modt ih =>
      rw [List.foldlM_cons, matchModule_survives, Option.bind_eq_bind, Option.bind_some]
      obtain ⟨s', hs', hblocks⟩ := ih ⟨s.bbs.filter fun i => ¬ m.Reaches i, s.m_blocks ++
        ((s.bbs.sort (· ≤ ·)).filter fun i => m.Reaches i).map m.block⟩
      refine ⟨s', ?_, ?_⟩
      · rw [← hs']
        congr 2
        ext i
        simp only [Finset.mem_filter, Finset.mem_sort]
        tauto
      · rw [hblocks, ← Multiset.coe_add, add_assoc, entries_cons]
        simp only [← Multiset.map_coe, ← Multiset.filter_coe, Finset.sort_eq, decide_eq_true_eq]
  obtain ⟨s, hs, hblocks⟩ := hloop ⟨bbs, []⟩
  exact ⟨s, hs, by simpa using hblocks⟩

end Fluffi.Runner.Qemu
