import Fluffi.LocalManager.NeededSubtype

/-! Whether an agent that is welcome can register. Both sides agree exactly where no implemented
subtype stands in the setting or one of them can be chosen, and they do for settings of the
documented form. -/

namespace Fluffi.LocalManager

open Shared
open Std (TreeMap)

/-! ### Agreement -/

theorem Percentages.named {entries : List (List (List Char))} {desired : List (List Char × ℤ)}
    (h : Percentages entries desired) {subtype : List Char}
    (hlookup : (desired.lookup subtype).isSome) : Named entries subtype := by
  induction h with
  | nil => simp at hlookup
  | @pair name percentage n entries desired _ _ ih =>
    rw [List.lookup_cons] at hlookup
    by_cases hname : subtype = name
    · exact ⟨_, List.mem_cons_self, by rw [hname]; rfl⟩
    · rw [beq_false_of_ne hname] at hlookup
      obtain ⟨entry, hentry, hhead⟩ := ih hlookup
      exact ⟨entry, List.mem_cons_of_mem _ hentry, hhead⟩
  | other _ _ ih =>
    obtain ⟨entry, hentry, hhead⟩ := ih hlookup
    exact ⟨entry, List.mem_cons_of_mem _ hentry, hhead⟩

/-- An agent that is welcome can register, and no other agent can, exactly where no
implemented subtype stands in the setting or one of them can be chosen. -/
theorem welcomed_iff_registers_iff (settings : List FluffiSetting) (rows : List (List Char × ℕ+))
    (type : AgentType) (implementedSubtypes : List (List Char)) :
    (iswelcomed settings type implementedSubtypes = true ↔
        ∃ subtype, decideSubAgentType settings rows type implementedSubtypes = some subtype ∧
          subtype ≠ []) ↔
      (∀ subtype ∈ implementedSubtypes, ¬ Named (entriesOf settings type) subtype) ∨
        ∃ desired, Percentages (entriesOf settings type) desired ∧
          Chooses desired (instanceNumbers rows) implementedSubtypes := by
  rw [iswelcomed_iff, decideSubAgentType_ne_nil_iff]
  constructor
  · intro hagree
    by_cases hchooses : ∃ desired, Percentages (entriesOf settings type) desired ∧
        Chooses desired (instanceNumbers rows) implementedSubtypes
    · exact .inr hchooses
    · exact .inl fun subtype hmem hnamed => hchooses (hagree.mp ⟨subtype, hmem, hnamed⟩)
  · rintro (hnone | hchooses)
    · constructor
      · rintro ⟨subtype, hmem, hnamed⟩
        exact absurd hnamed (hnone subtype hmem)
      · rintro ⟨desired, hpercentages, hchooses⟩
        obtain ⟨subtype, hmem, -, hlookup, -⟩ := hchooses.needed
        exact absurd (hpercentages.named hlookup) (hnone subtype hmem)
    · obtain ⟨desired, hpercentages, hneeded⟩ := id hchooses
      obtain ⟨subtype, hmem, -, hlookup, -⟩ := hneeded.needed
      exact ⟨fun _ => hchooses, fun _ => ⟨subtype, hmem, hpercentages.named hlookup⟩⟩

/-- Without a percentage an agent is welcome but gets no subtype, and with no
percentage but zero the registration does not come back from its division. -/
theorem welcomed_not_registered :
    ¬ (iswelcomed [⟨"generatorTypes".toList, "A".toList⟩] .TestcaseGenerator
        ["A".toList] = true ↔
      ∃ subtype, decideSubAgentType [⟨"generatorTypes".toList, "A".toList⟩] []
        .TestcaseGenerator ["A".toList] = some subtype ∧ subtype ≠ []) ∧
    ¬ (iswelcomed [⟨"generatorTypes".toList, "A=0".toList⟩] .TestcaseGenerator
        ["A".toList] = true ↔
      ∃ subtype, decideSubAgentType [⟨"generatorTypes".toList, "A=0".toList⟩] []
        .TestcaseGenerator ["A".toList] = some subtype ∧ subtype ≠ []) := by
  constructor
  · intro hagree
    have hdecided : decideSubAgentType [⟨"generatorTypes".toList, "A".toList⟩] []
        .TestcaseGenerator ["A".toList] = some [] := by decide
    obtain ⟨subtype, hsubtype, hne⟩ := hagree.mp (by decide)
    rw [hdecided] at hsubtype
    exact hne (Option.some.inj hsubtype).symm
  · intro hagree
    have hdecided : decideSubAgentType [⟨"generatorTypes".toList, "A=0".toList⟩] []
        .TestcaseGenerator ["A".toList] = none := by decide
    obtain ⟨subtype, hsubtype, -⟩ := hagree.mp (by decide)
    rw [hdecided] at hsubtype
    cases hsubtype

/-! ### Settings of the documented form -/

theorem Percentages.lookup_isSome {entries : List (List (List Char))}
    {desired : List (List Char × ℤ)} (h : Percentages entries desired)
    (hparts : ∀ entry ∈ entries, entry.length = 2) {subtype : List Char}
    (hnamed : Named entries subtype) : (desired.lookup subtype).isSome := by
  induction h with
  | nil => simp [Named] at hnamed
  | @pair name percentage n entries desired _ _ ih =>
    rw [List.lookup_cons]
    by_cases hname : subtype = name
    · simp [hname]
    · rw [beq_false_of_ne hname]
      obtain ⟨entry, hentry, hhead⟩ := hnamed
      rcases List.mem_cons.mp hentry with rfl | hentry
      · exact absurd (Option.some.inj hhead).symm hname
      · exact ih (fun e he => hparts e (List.mem_cons_of_mem _ he)) ⟨entry, hentry, hhead⟩
  | other hlength _ _ => exact absurd (hparts _ List.mem_cons_self) hlength

/-- Where all entries name a subtype and a percentage, as documented, both sides agree. -/
theorem agree_of_documented (settings : List FluffiSetting) (rows : List (List Char × ℕ+))
    (type : AgentType) (implemented : List (List Char)) {desired : List (List Char × ℤ)}
    (hpercentages : Percentages (entriesOf settings type) desired)
    (hparts : ∀ entry ∈ entriesOf settings type, entry.length = 2)
    (hnames : ∀ subType ∈ desired, subType.1 ≠ []) (hnonneg : ∀ subType ∈ desired, 0 ≤ subType.2)
    (hpos : 0 < total desired) (hsmall : total desired * 100 < 2 ^ 31)
    (hrows : total (instanceNumbers rows) * 100 < 2 ^ 31) :
    iswelcomed settings type implemented = true ↔
      ∃ subtype, decideSubAgentType settings rows type implemented = some subtype ∧
        subtype ≠ [] := by
  have hshare (subtype : List Char) := percentOf_mem hnonneg subtype
  have hactive : ∀ row ∈ instanceNumbers rows, 0 ≤ row.2 := by
    intro row hrow
    obtain ⟨_, -, rfl⟩ := List.mem_map.mp hrow
    exact Int.natCast_nonneg _
  have hcurrent (subtype : List Char) := percentOf_mem hactive subtype
  refine (welcomed_iff_registers_iff settings rows type implemented).mpr ?_
  by_cases hnamed : ∃ subtype ∈ implemented, Named (entriesOf settings type) subtype
  · obtain ⟨subtype, hmem, hnamed⟩ := hnamed
    have hlookup := hpercentages.lookup_isSome hparts hnamed
    have hname {name : List Char} (h : (desired.lookup name).isSome) : name ≠ [] := by
      obtain ⟨n, hn⟩ := Option.isSome_iff_exists.mp h
      obtain ⟨l₁, l₂, rfl, -⟩ := List.lookup_eq_some_iff.mp hn
      exact hnames (name, n) (by simp)
    refine .inr ⟨desired, hpercentages, numbersFit_of_nonneg hnonneg hsmall, by omega,
      numbersFit_of_nonneg hactive hrows, fun name _ _ => ?_, subtype, hmem, hname hlookup,
      hlookup, ?_, fun _ hempty => absurd rfl (hname hempty)⟩
    · have h₁ := hshare name
      have h₂ := hcurrent name
      unfold need
      constructor <;> omega
    · have h₁ := hshare subtype
      have h₂ := hcurrent subtype
      unfold need
      omega
  · exact .inl fun subtype hmem h => hnamed ⟨subtype, hmem, h⟩

end Fluffi.LocalManager
