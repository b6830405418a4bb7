import Fluffi.LocalManager.NeededSubtype
import Mathlib.Algebra.BigOperators.Group.List.Lemmas
import Mathlib.Algebra.Order.Field.Rat
import Mathlib.Data.List.Dedup
import Mathlib.Data.Nat.Cast.Basic
import Mathlib.Data.Rat.Defs

/-! Which subtype a new agent gets. It should be the one that is desired most beyond its share
among the agents of the same type. `decideSubAgentType` computes both shares in whole
percents, looks only at the first entry of a subtype, and its query counts the agents of all
types. -/

namespace Fluffi.LocalManager

open Shared

/-! ### The registered instances -/

/-- The answer of the query for the numbers of instances, in any order: one row for each
subtype of any instance. Names that differ only in case or in blanks at the end are left out: the
collation of the column takes them for one. -/
structure InstanceRows (registered : List (AgentType × List Char)) where
  rows : List (List Char × ℕ+)
  nodup : (rows.map Prod.fst).Nodup
  mem_rows : ∀ row, row ∈ rows ↔ (row.2 : ℕ) = (registered.map Prod.snd).count row.1

section Rows

variable {registered : List (AgentType × List Char)} (q : InstanceRows registered)

theorem InstanceRows.lookup_getD (subtype : List Char) :
    ((instanceNumbers q.rows).lookup subtype).getD 0 =
      ((registered.map Prod.snd).count subtype : ℤ) := by
  cases hlookup : (instanceNumbers q.rows).lookup subtype with
  | none =>
    by_contra hcount
    have hpos : 0 < (registered.map Prod.snd).count subtype := by
      simp only [Option.getD_none] at hcount
      omega
    have hrow := (q.mem_rows (subtype, ⟨_, hpos⟩)).mpr rfl
    have hmem := List.mem_map_of_mem (f := fun row : List Char × ℕ+ => (row.1, (row.2 : ℤ))) hrow
    simpa using List.lookup_eq_none_iff.mp hlookup _ hmem
  | some n =>
    obtain ⟨l₁, l₂, heq, -⟩ := List.lookup_eq_some_iff.mp hlookup
    have hmem : (subtype, n) ∈ instanceNumbers q.rows := by simp [heq]
    obtain ⟨row, hrow, hn⟩ := List.mem_map.mp hmem
    obtain ⟨rfl, rfl⟩ := Prod.mk.inj hn
    have := (q.mem_rows row).mp hrow
    simp only [Option.getD_some]
    omega

theorem InstanceRows.perm_dedup :
    (q.rows.map Prod.fst).Perm (registered.map Prod.snd).dedup := by
  rw [List.perm_ext_iff_of_nodup q.nodup (List.nodup_dedup _)]
  intro subtype
  rw [List.mem_dedup]
  constructor
  · intro hmem
    rw [← List.count_pos_iff]
    obtain ⟨row, hrow, rfl⟩ := List.mem_map.mp hmem
    have := (q.mem_rows row).mp hrow
    have := row.2.pos
    omega
  · intro hmem
    have hpos := List.count_pos_iff.mpr hmem
    exact List.mem_map.mpr ⟨(subtype, ⟨_, hpos⟩), (q.mem_rows _).mpr rfl, rfl⟩

theorem InstanceRows.total_eq : total (instanceNumbers q.rows) = registered.length := by
  have hcounts : (instanceNumbers q.rows).map Prod.snd =
      (q.rows.map Prod.fst).map fun subtype =>
        ((registered.map Prod.snd).count subtype : ℤ) := by
    rw [instanceNumbers, List.map_map, List.map_map]
    refine List.map_congr_left fun row hrow => ?_
    have := (q.mem_rows row).mp hrow
    simp only [Function.comp_apply]
    omega
  have hlength : ((registered.map Prod.snd).dedup.map fun subtype =>
      (registered.map Prod.snd).count subtype).sum = registered.length := by
    have hdedup := List.sum_map_count_dedup_eq_length (registered.map Prod.snd)
    rw [List.length_map] at hdedup
    rw [← hdedup]
    congr!
  have hcast := map_list_sum (Nat.castAddMonoidHom ℤ)
    ((registered.map Prod.snd).dedup.map fun subtype => (registered.map Prod.snd).count subtype)
  rw [hlength, List.map_map] at hcast
  rw [total, hcounts, (q.perm_dedup.map _).sum_eq]
  exact hcast.symm

theorem instanceNumbers_nonneg (rows : List (List Char × ℕ+)) :
    ∀ subType ∈ instanceNumbers rows, 0 ≤ subType.2 := by
  intro subType hmem
  obtain ⟨row, -, rfl⟩ := List.mem_map.mp hmem
  exact Int.natCast_nonneg _

/-- The numbers fit if the number of instances does and hundred times that of each subtype. -/
theorem InstanceRows.numbersFit_iff :
    NumbersFit (instanceNumbers q.rows) ↔ registered.length < 2 ^ 31 ∧
      ∀ subtype, (registered.map Prod.snd).count subtype * 100 < 2 ^ 31 := by
  have htotal := q.total_eq
  have hnonneg := instanceNumbers_nonneg q.rows
  constructor
  · intro hfits
    constructor
    · cases hlength : (instanceNumbers q.rows).length with
      | zero =>
        rw [List.length_eq_zero_iff.mp hlength] at htotal
        have : (0 : ℤ) = registered.length := htotal
        omega
      | succ n =>
        have hall := hfits.sums n (by omega)
        rw [List.take_of_length_le (by omega), htotal] at hall
        have := hall.2
        omega
    · intro subtype
      by_cases hzero : (registered.map Prod.snd).count subtype = 0
      · rw [hzero]
        decide
      · have hrow := (q.mem_rows (subtype, ⟨_, Nat.pos_of_ne_zero hzero⟩)).mpr rfl
        have hproduct := (hfits.products _ (List.mem_map_of_mem hrow)).2
        simp only [PNat.mk_coe] at hproduct
        omega
  · rintro ⟨hlength, hcounts⟩
    refine ⟨fun n _ => ?_, fun subType hmem => ?_⟩
    · have hsum := total_take_mem hnonneg (n + 1)
      rw [htotal] at hsum
      constructor <;> omega
    · obtain ⟨row, hrow, rfl⟩ := List.mem_map.mp hmem
      have hcount := (q.mem_rows row).mp hrow
      have := hcounts row.1
      constructor <;> omega

end Rows

/-! ### What is chosen -/

/-- The result of the loop: the start, if nothing exceeds it, or the first maximum. -/
theorem neededMost_cases (diffs : List (List Char × ℤ)) (max : List Char × ℤ) :
    (neededMost diffs max = max ∧ ∀ it ∈ diffs, it.2 ≤ max.2) ∨
      ∃ l₁ l₂, diffs = l₁ ++ neededMost diffs max :: l₂ ∧ max.2 < (neededMost diffs max).2 ∧
        (∀ it ∈ l₁, it.2 < (neededMost diffs max).2) ∧
        ∀ it ∈ l₂, it.2 ≤ (neededMost diffs max).2 := by
  induction diffs generalizing max with
  | nil => exact .inl ⟨rfl, by simp⟩
  | cons it diffs ih =>
    rw [neededMost]
    by_cases hit : it.2 > max.2
    · rw [if_pos hit]
      rcases ih it with ⟨heq, hle⟩ | ⟨l₁, l₂, hsplit, hlt, hbefore, hbehind⟩
      · refine .inr ⟨[], diffs, ?_, ?_, by simp, ?_⟩
        · rw [heq, List.nil_append]
        · rwa [heq]
        · rwa [heq]
      · refine .inr ⟨it :: l₁, l₂, ?_, hit.lt.trans hlt, ?_, hbehind⟩
        · rw [List.cons_append, ← hsplit]
        · exact List.forall_mem_cons.mpr ⟨hlt, hbefore⟩
    · rw [if_neg hit]
      rcases ih max with ⟨heq, hle⟩ | ⟨l₁, l₂, hsplit, hlt, hbefore, hbehind⟩
      · exact .inl ⟨heq, List.forall_mem_cons.mpr ⟨not_lt.mp hit, hle⟩⟩
      · refine .inr ⟨it :: l₁, l₂, ?_, hlt, ?_, hbehind⟩
        · rw [List.cons_append, ← hsplit]
        · exact List.forall_mem_cons.mpr ⟨(not_lt.mp hit).trans_lt hlt, hbefore⟩

/-- An implemented subtype with an entry in the setting. -/
def Available (desired : List (List Char × ℤ)) (implemented : List (List Char))
    (subtype : List Char) : Prop :=
  subtype ∈ implemented ∧ (desired.lookup subtype).isSome

/-- What the code compares, in percents without fractions: the share of the first entry in
the sum of all entries, less the share of the subtype in the instances of all types. -/
def percentsLacking (desired : List (List Char × ℤ)) (registered : List (AgentType × List Char))
    (subtype : List Char) : ℤ :=
  percentOf desired subtype -
    (((registered.map Prod.snd).count subtype : ℤ) * 100).tdiv registered.length

theorem need_eq {registered : List (AgentType × List Char)} (q : InstanceRows registered)
    (desired : List (List Char × ℤ)) (subtype : List Char) :
    need desired (instanceNumbers q.rows) subtype =
      percentsLacking desired registered subtype := by
  rw [need, percentsLacking, percentOf, percentOf, q.lookup_getD, q.total_eq]

/-- The first one is chosen before the other: it lacks more, or as much and comes first in
the map. -/
def Precedes (desired : List (List Char × ℤ)) (registered : List (AgentType × List Char))
    (subtype other : List Char) : Prop :=
  percentsLacking desired registered other < percentsLacking desired registered subtype ∨
    percentsLacking desired registered other = percentsLacking desired registered subtype ∧
      compare subtype other = .lt

/-- Nothing overflows and nothing is divided by zero. -/
structure Computes (desired : List (List Char × ℤ)) (registered : List (AgentType × List Char))
    (implemented : List (List Char)) : Prop where
  desired_fits : NumbersFit desired
  total_ne_zero : total desired ≠ 0
  instances_fit : registered.length < 2 ^ 31
  counts_fit : ∀ subtype, (registered.map Prod.snd).count subtype * 100 < 2 ^ 31
  lacks_fit : ∀ subtype, Available desired implemented subtype →
    IsInt (percentsLacking desired registered subtype)

/-- The choice: the available subtype that precedes all others, if it lacks more than -200,
and the empty name if none does. -/
def Chosen (desired : List (List Char × ℤ)) (registered : List (AgentType × List Char))
    (implemented : List (List Char)) (chosen : List Char) : Prop :=
  (Available desired implemented chosen ∧ -200 < percentsLacking desired registered chosen ∧
      ∀ subtype, Available desired implemented subtype → subtype ≠ chosen →
        Precedes desired registered chosen subtype) ∨
    chosen = [] ∧ ∀ subtype, Available desired implemented subtype →
      percentsLacking desired registered subtype ≤ -200

theorem chosen_neededMost {desired : List (List Char × ℤ)}
    {registered : List (AgentType × List Char)} {implemented : List (List Char)}
    {diffs : Std.TreeMap (List Char) ℤ}
    (hdiffs : ∀ (subtype : List Char) (v : ℤ), diffs[subtype]? = some v ↔
      Available desired implemented subtype ∧
        percentsLacking desired registered subtype = v) :
    Chosen desired registered implemented (neededMost diffs.toList ([], -200)).1 := by
  have hmem : ∀ (subtype : List Char) (v : ℤ), (subtype, v) ∈ diffs.toList ↔
      Available desired implemented subtype ∧
        percentsLacking desired registered subtype = v := by
    intro subtype v
    rw [← hdiffs, Std.TreeMap.mem_toList_iff_getElem?_eq_some]
  have hordered := Std.TreeMap.ordered_keys_toList (t := diffs)
  rcases neededMost_cases diffs.toList ([], -200) with
    ⟨heq, hle⟩ | ⟨l₁, l₂, hsplit, hlt, hbefore, hbehind⟩
  · rw [heq]
    refine .inr ⟨rfl, fun subtype havailable => ?_⟩
    exact hle (subtype, _) ((hmem _ _).mpr ⟨havailable, rfl⟩)
  · generalize neededMost diffs.toList ([], -200) = chosen at hsplit hlt hbefore hbehind ⊢
    obtain ⟨chosen, v⟩ := chosen
    obtain ⟨havailable, rfl⟩ := (hmem chosen v).mp (by rw [hsplit]; simp)
    refine .inl ⟨havailable, hlt, fun subtype hsubtype hne => ?_⟩
    have hin := (hmem subtype _).mpr ⟨hsubtype, rfl⟩
    rw [hsplit] at hin hordered
    rcases List.mem_append.mp hin with hin | hin
    · exact .inl (hbefore _ hin)
    · rcases List.mem_cons.mp hin with heq | hin
      · exact absurd (Prod.mk.inj heq).1 hne
      · rcases (hbehind _ hin).lt_or_eq with hless | hequal
        · exact .inl hless
        · refine .inr ⟨hequal, ?_⟩
          have hpair := (List.pairwise_append.mp hordered).2.1
          exact (List.pairwise_cons.mp hpair).1 _ hin

section Decision

variable {settings : List FluffiSetting} {registered : List (AgentType × List Char)}
  (q : InstanceRows registered) {type : AgentType} {implemented : List (List Char)}
  {desired : List (List Char × ℤ)}

theorem lacks_fit_iff : (∀ subtype ∈ implemented, (desired.lookup subtype).isSome →
      IsInt (need desired (instanceNumbers q.rows) subtype)) ↔
    ∀ subtype, Available desired implemented subtype →
      IsInt (percentsLacking desired registered subtype) := by
  simp only [need_eq, Available, and_imp]

theorem decideSubAgentType_nil (h : Percentages (entriesOf settings type) []) :
    decideSubAgentType settings q.rows type implemented = some [] := by
  rw [decideSubAgentType, desiredSubTypes_eq_some.mpr h]
  rfl

/-- A subtype comes back only where all is computed, and it is the chosen one. -/
theorem chosen_of_decideSubAgentType (h : Percentages (entriesOf settings type) desired)
    (hne : desired ≠ []) {subtype : List Char}
    (hdecide : decideSubAgentType settings q.rows type implemented = some subtype) :
    Computes desired registered implemented ∧
      Chosen desired registered implemented subtype := by
  simp only [decideSubAgentType, desiredSubTypes_eq_some.mpr h, Option.bind_some, if_neg hne,
    Option.bind_eq_some_iff, Option.map_eq_some_iff] at hdecide
  obtain ⟨normalized, hnormalized, instances, hinstances, current, hcurrent, diffs, hdiffs, rfl⟩ :=
    hdecide
  obtain ⟨hfits, hactive⟩ := normalize_instances_eq_some.mp
    (Option.bind_eq_some_iff.mpr ⟨instances, hinstances, hcurrent⟩)
  obtain ⟨hdesired, hzero, -⟩ := normalize_eq_some.mp hnormalized
  obtain ⟨hlength, hcounts⟩ := q.numbersFit_iff.mp hfits
  have hlacks := (subtypeDiffs_normalized_isSome hnormalized hactive implemented).mp
    (by rw [hdiffs]; rfl)
  refine ⟨⟨hdesired, hzero.resolve_left hne, hlength, hcounts, (lacks_fit_iff q).mp hlacks⟩,
    chosen_neededMost fun subtype v => ?_⟩
  rw [getElem?_subtypeDiffs_normalized hnormalized hactive hdiffs, need_eq, Available, and_assoc]

theorem decideSubAgentType_of_computes (h : Percentages (entriesOf settings type) desired)
    (hcomputes : Computes desired registered implemented) :
    ∃ subtype, decideSubAgentType settings q.rows type implemented = some subtype := by
  have hne : desired ≠ [] := by
    rintro rfl
    exact hcomputes.total_ne_zero rfl
  have hfits := q.numbersFit_iff.mpr ⟨hcomputes.instances_fit, hcomputes.counts_fit⟩
  have hrows : instanceNumbers q.rows = [] ∨ total (instanceNumbers q.rows) ≠ 0 := by
    by_cases h : q.rows = []
    · exact .inl (by rw [h]; rfl)
    · exact .inr (total_instanceNumbers_ne_zero h)
  have hnormalized := normalize_eq_some.mpr
    ⟨hcomputes.desired_fits, .inr hcomputes.total_ne_zero, rfl⟩
  have hcurrent := normalize_eq_some.mpr ⟨hfits, hrows, rfl⟩
  obtain ⟨instances, hinstances, hbound⟩ := Option.bind_eq_some_iff.mp
    (normalize_instances_eq_some.mpr ⟨hfits, hcurrent⟩)
  obtain ⟨diffs, hdiffs⟩ := Option.isSome_iff_exists.mp
    ((subtypeDiffs_normalized_isSome hnormalized hcurrent implemented).mpr
      ((lacks_fit_iff q).mpr hcomputes.lacks_fit))
  simp only [decideSubAgentType, desiredSubTypes_eq_some.mpr h, Option.bind_some, if_neg hne,
    Option.bind_eq_some_iff, Option.map_eq_some_iff]
  exact ⟨_, _, hnormalized, instances, hinstances, _, hbound, diffs, hdiffs, rfl⟩

end Decision

/-! ### What should be chosen -/

/-- The part of all percentages that the entries of a subtype have. -/
def desiredShare (desired : List (List Char × ℤ)) (subtype : List Char) : ℚ :=
  total (desired.filter (·.1 = subtype)) / total desired

/-- The part of the agents of a type that a subtype has; zero if there is none of the type. -/
def registeredShare (registered : List (AgentType × List Char)) (type : AgentType)
    (subtype : List Char) : ℚ :=
  registered.count (type, subtype) / registered.countP (·.1 = type)

def lacking (desired : List (List Char × ℤ)) (registered : List (AgentType × List Char))
    (type : AgentType) (subtype : List Char) : ℚ :=
  desiredShare desired subtype - registeredShare registered type subtype

/-- No available subtype lacks more. -/
def LacksMost (desired : List (List Char × ℤ)) (registered : List (AgentType × List Char))
    (type : AgentType) (implemented : List (List Char)) (subtype : List Char) : Prop :=
  Available desired implemented subtype ∧ ∀ other, Available desired implemented other →
    lacking desired registered type other ≤ lacking desired registered type subtype

/-- The decision comes back, and if a subtype is available it is one that lacks most. -/
def Balances (settings : List FluffiSetting) (registered : List (AgentType × List Char))
    (rows : List (List Char × ℕ+)) (type : AgentType) (implemented : List (List Char)) : Prop :=
  ∃ desired subtype, Percentages (entriesOf settings type) desired ∧
    decideSubAgentType settings rows type implemented = some subtype ∧
    ((∃ other, Available desired implemented other) →
      LacksMost desired registered type implemented subtype)

/-- Each available subtype that does not lack most is preceded by another one, unless the
start value of the loop stays: then the empty name has to be the right choice. -/
def Selects (desired : List (List Char × ℤ)) (registered : List (AgentType × List Char))
    (type : AgentType) (implemented : List (List Char)) : Prop :=
  ((∃ subtype, Available desired implemented subtype ∧
      -200 < percentsLacking desired registered subtype) →
    ∀ subtype, Available desired implemented subtype →
      ¬ LacksMost desired registered type implemented subtype →
        ∃ other, Available desired implemented other ∧
          Precedes desired registered other subtype) ∧
    ((∃ subtype, Available desired implemented subtype) →
      (∀ subtype, Available desired implemented subtype →
        percentsLacking desired registered subtype ≤ -200) →
      LacksMost desired registered type implemented [])

theorem Precedes.asymm {desired : List (List Char × ℤ)}
    {registered : List (AgentType × List Char)} {subtype other : List Char}
    (h : Precedes desired registered subtype other) :
    ¬ Precedes desired registered other subtype := by
  rcases h with h | ⟨h, hbefore⟩
  · rintro (h' | ⟨h', -⟩) <;> omega
  · rintro (h' | ⟨-, hbefore'⟩)
    · omega
    · exact Std.OrientedCmp.not_lt_of_lt hbefore hbefore'

/-- The chosen subtype is the right one exactly if the setting and the instances select so. -/
theorem lacksMost_chosen_iff {desired : List (List Char × ℤ)}
    {registered : List (AgentType × List Char)} {type : AgentType}
    {implemented : List (List Char)} {chosen : List Char}
    (h : Chosen desired registered implemented chosen) :
    ((∃ other, Available desired implemented other) →
        LacksMost desired registered type implemented chosen) ↔
      Selects desired registered type implemented := by
  rcases h with ⟨havailable, hlacks, hfirst⟩ | ⟨rfl, hnone⟩
  · constructor
    · intro hmost
      refine ⟨fun _ subtype hsubtype hnot => ⟨chosen, havailable, hfirst subtype hsubtype ?_⟩,
        fun _ hall => absurd (hall chosen havailable) (not_le.mpr hlacks)⟩
      rintro rfl
      exact hnot (hmost ⟨subtype, havailable⟩)
    · intro hselects _
      by_contra hnot
      obtain ⟨other, hother, hprecedes⟩ :=
        hselects.1 ⟨chosen, havailable, hlacks⟩ chosen havailable hnot
      by_cases hne : other = chosen
      · rw [hne] at hprecedes
        exact hprecedes.asymm hprecedes
      · exact hprecedes.asymm (hfirst other hother hne)
  · constructor
    · intro hmost
      refine ⟨fun hexceeds => ?_, fun hexists _ => hmost hexists⟩
      obtain ⟨subtype, hsubtype, hlacks⟩ := hexceeds
      exact absurd (hnone subtype hsubtype) (not_le.mpr hlacks)
    · exact fun hselects hexists => hselects.2 hexists hnone

/-- For every setting, all registered instances and all implemented subtypes. -/
theorem decideSubAgentType_balances_iff (settings : List FluffiSetting)
    {registered : List (AgentType × List Char)} (q : InstanceRows registered) (type : AgentType)
    (implemented : List (List Char)) :
    Balances settings registered q.rows type implemented ↔
      ∃ desired, Percentages (entriesOf settings type) desired ∧
        (desired = [] ∨ Computes desired registered implemented ∧
          Selects desired registered type implemented) := by
  constructor
  · rintro ⟨desired, subtype, hpercentages, hdecide, hmost⟩
    refine ⟨desired, hpercentages, ?_⟩
    by_cases hne : desired = []
    · exact .inl hne
    · obtain ⟨hcomputes, hchosen⟩ := chosen_of_decideSubAgentType q hpercentages hne hdecide
      exact .inr ⟨hcomputes, (lacksMost_chosen_iff hchosen).mp hmost⟩
  · rintro ⟨desired, hpercentages, rfl | ⟨hcomputes, hselects⟩⟩
    · refine ⟨[], [], hpercentages, decideSubAgentType_nil q hpercentages, ?_⟩
      rintro ⟨other, -, hother⟩
      cases hother
    · obtain ⟨subtype, hdecide⟩ := decideSubAgentType_of_computes q hpercentages hcomputes
      have hne : desired ≠ [] := by
        rintro rfl
        exact hcomputes.total_ne_zero rfl
      have hchosen := (chosen_of_decideSubAgentType q hpercentages hne hdecide).2
      exact ⟨desired, subtype, hpercentages, hdecide, (lacksMost_chosen_iff hchosen).mpr hselects⟩

/-- One generator and nine evaluators. -/
def mixedInstances : List (AgentType × List Char) :=
  (.TestcaseGenerator, "A".toList) :: List.replicate 9 (.TestcaseEvaluator, "E".toList)

def mixedRows : InstanceRows mixedInstances where
  rows := [("A".toList, 1), ("E".toList, 9)]
  nodup := by decide
  mem_rows := by
    rintro ⟨subtype, n⟩
    have hcount : (mixedInstances.map Prod.snd).count subtype =
        if subtype = "A".toList then 1 else if subtype = "E".toList then 9 else 0 := by
      simp only [mixedInstances, List.map_cons, List.map_replicate, List.count_cons,
        List.count_replicate, beq_iff_eq, eq_comm (b := subtype)]
      split_ifs <;> simp_all
    have hpos := n.pos
    simp only [hcount, List.mem_cons, Prod.mk.injEq, List.not_mem_nil, or_false,
      ← PNat.coe_inj, PNat.one_coe, show ((9 : ℕ+) : ℕ) = 9 from rfl]
    have hne : "A".toList ≠ "E".toList := by decide
    split_ifs with hA hE
    · simp [hA]
    · simp [hE]
    · simp only [hA, hE, false_and, or_self, n.ne_zero]

/-- The evaluators hide that all generators are of the subtype `A`; and with no percentage but
zero the decision does not come back. -/
theorem decideSubAgentType_unbalanced :
    decideSubAgentType [⟨"generatorTypes".toList, "A=60|B=40".toList⟩] mixedRows.rows
        .TestcaseGenerator ["A".toList, "B".toList] = some "A".toList ∧
      ¬ Balances [⟨"generatorTypes".toList, "A=60|B=40".toList⟩] mixedInstances mixedRows.rows
        .TestcaseGenerator ["A".toList, "B".toList] ∧
      decideSubAgentType [⟨"generatorTypes".toList, "A=0".toList⟩] [] .TestcaseGenerator
        ["A".toList] = none := by
  have hdecided : decideSubAgentType [⟨"generatorTypes".toList, "A=60|B=40".toList⟩]
      mixedRows.rows .TestcaseGenerator ["A".toList, "B".toList] = some "A".toList := by decide
  refine ⟨hdecided, ?_, by decide⟩
  rintro ⟨desired, subtype, hpercentages, hdecide, hmost⟩
  obtain rfl := Option.some.inj (hdecided.symm.trans hdecide)
  have hdesired : desiredSubTypes [⟨"generatorTypes".toList, "A=60|B=40".toList⟩]
      .TestcaseGenerator = some [("A".toList, 60), ("B".toList, 40)] := by decide
  obtain rfl := Option.some.inj (hdesired.symm.trans (desiredSubTypes_eq_some.mpr hpercentages))
  have hb : Available [("A".toList, 60), ("B".toList, 40)] ["A".toList, "B".toList]
      "B".toList := ⟨by decide, by decide⟩
  have hle := (hmost ⟨_, hb⟩).2 _ hb
  revert hle
  decide +kernel

end Fluffi.LocalManager
