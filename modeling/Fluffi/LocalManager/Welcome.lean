import Fluffi.Shared.Identity
import Fluffi.Shared.Strings
import Mathlib.Data.Finset.Option
import Mathlib.Data.List.Forall2
import Mathlib.Data.PNat.Basic

/-! Which agents the local manager takes. It first tells an agent whether it is
welcome, and when the agent then registers it decides the agent's subtype. Both
read the same setting, a list of subtypes and percentages such as `A=50|B=50`,
but take it apart differently. -/

namespace Fluffi.LocalManager

open Shared
open Std (TreeMap)

/-! ### The settings -/

structure FluffiSetting where
  m_settingName : List Char
  m_settingValue : List Char
  deriving DecidableEq, Repr

/-- The value of the first setting of a name, where the loops over the settings end. -/
def settingValue (settings : List FluffiSetting) (settingName : List Char) :
    Option (List Char) :=
  (settings.find? fun setting => setting.m_settingName = settingName).map
    FluffiSetting.m_settingValue

/-- The entries of `generatorTypes` or `evaluatorTypes`, such as `A=50`. -/
def typesAndPercentages (settings : List FluffiSetting) (settingName : List Char) :
    List (List Char) :=
  match settingValue settings settingName with
  | some value => splitString value ['|']
  | none => []

/-! ### The welcome -/

/-- The first parts of the entries. `splitString` leaves no list empty. -/
def acceptedFrom (entries : List (List Char)) : Finset (List Char) :=
  (entries.map fun entry => (splitString entry ['=']).headD []).toFinset

/-- `acceptedAgentSubTypes`; `none` where the type is not implemented. -/
def acceptedAgentSubTypes (settings : List FluffiSetting) :
    AgentType → Option (Finset (List Char))
  | .TestcaseGenerator =>
    some (acceptedFrom (typesAndPercentages settings "generatorTypes".toList))
  | .TestcaseRunner => some (settingValue settings "runnerType".toList).toFinset
  | .TestcaseEvaluator =>
    some (acceptedFrom (typesAndPercentages settings "evaluatorTypes".toList))
  | _ => none

/-- `IsAgentWelcomedRequestHandler::handleFLUFFIMessage` -/
def iswelcomed (settings : List FluffiSetting) (type : AgentType)
    (implementedSubtypes : List (List Char)) : Bool :=
  match acceptedAgentSubTypes settings type with
  | some accepted => implementedSubtypes.any fun subtype => subtype ∈ accepted
  | none => false

/-! ### The registration -/

/-- The entries of two parts; `none` where `std::stoi` throws and the process exits. -/
def desiredFrom : List (List Char) → Option (List (List Char × ℤ))
  | [] => some []
  | entry :: entries =>
    match splitString entry ['='] with
    | [subtype, percentage] =>
      (stoi percentage).bind fun n =>
        (desiredFrom entries).map fun desired => (subtype, n) :: desired
    | _ => desiredFrom entries

def desiredSubTypes (settings : List FluffiSetting) :
    AgentType → Option (List (List Char × ℤ))
  | .TestcaseGenerator => desiredFrom (typesAndPercentages settings "generatorTypes".toList)
  | .TestcaseEvaluator => desiredFrom (typesAndPercentages settings "evaluatorTypes".toList)
  | .TestcaseRunner =>
    some ((settingValue settings "runnerType".toList).toList.map fun value => (value, 100))
  | _ => some []

/-- `getRegisteredInstancesNumOfSubTypes`, of the rows that the query returns. -/
def getRegisteredInstancesNumOfSubTypes :
    List (List Char × ℕ+) → Option (List (List Char × ℤ))
  | [] => some []
  | row :: rows =>
    (toInt row.2).bind fun n =>
      (getRegisteredInstancesNumOfSubTypes rows).map fun active => (row.1, n) :: active

def sumOfAllSubtypes : ℤ → List (List Char × ℤ) → Option ℤ
  | sum, [] => some sum
  | sum, subType :: subTypes =>
    (toInt (sum + subType.2)).bind fun sum => sumOfAllSubtypes sum subTypes

/-- The division by zero has no result. No other quotient overflows, since no
multiple of hundred is the least `int`. -/
def shareOfSum (sum : ℤ) : List (List Char × ℤ) → Option (List (List Char × ℤ))
  | [] => some []
  | subType :: subTypes =>
    (toInt (subType.2 * 100)).bind fun product =>
      if sum = 0 then none
      else (shareOfSum sum subTypes).map fun rest => (subType.1, product.tdiv sum) :: rest

/-- The percentages of the sum. -/
def normalize (subTypes : List (List Char × ℤ)) : Option (List (List Char × ℤ)) :=
  (sumOfAllSubtypes 0 subTypes).bind fun sum => shareOfSum sum subTypes

/-- A `std::map`, into which a second value of a key is not inserted. -/
def asMap : List (List Char × ℤ) → TreeMap (List Char) ℤ → TreeMap (List Char) ℤ
  | [], map => map
  | subType :: subTypes, map => asMap subTypes (map.insertIfNew subType.1 subType.2)

def subtypeDiffs (desired current : TreeMap (List Char) ℤ) :
    List (List Char) → TreeMap (List Char) ℤ → Option (TreeMap (List Char) ℤ)
  | [], diffs => some diffs
  | subtype :: subtypes, diffs =>
    match desired[subtype]? with
    | some desiredVal =>
      (toInt (desiredVal - (current[subtype]?).getD 0)).bind fun diff =>
        subtypeDiffs desired current subtypes (diffs.insertIfNew subtype diff)
    | none => subtypeDiffs desired current subtypes diffs

/-- The loop for `maxIndex` and `maxValue`. -/
def neededMost : List (List Char × ℤ) → List Char × ℤ → List Char × ℤ
  | [], max => max
  | it :: rest, max => neededMost rest (if it.2 > max.2 then it else max)

/-- `RegisterAtLMRequestHandler::decideSubAgentType`; `none` where it does not return. -/
def decideSubAgentType (settings : List FluffiSetting) (rows : List (List Char × ℕ+))
    (type : AgentType) (implementedSubtypes : List (List Char)) : Option (List Char) :=
  (desiredSubTypes settings type).bind fun desired =>
    if desired = [] then some []
    else (normalize desired).bind fun desired =>
      (getRegisteredInstancesNumOfSubTypes rows).bind fun current =>
        (normalize current).bind fun current =>
          (subtypeDiffs (asMap desired ∅) (asMap current ∅) implementedSubtypes ∅).map
            fun diffs => (neededMost diffs.toList ([], -200)).1

example : decideSubAgentType [⟨"generatorTypes".toList, "A=50|B=50".toList⟩]
    [("A".toList, 3), ("B".toList, 1)] .TestcaseGenerator ["A".toList, "B".toList] =
    some "B".toList := by decide

/-! ### What both sides read -/

/-- The parts of the entries of the type setting. All runners are of the one type. -/
def entriesOf (settings : List FluffiSetting) : AgentType → List (List (List Char))
  | .TestcaseGenerator =>
    (typesAndPercentages settings "generatorTypes".toList).map (splitString · ['='])
  | .TestcaseRunner =>
    (settingValue settings "runnerType".toList).toList.map fun value => [value, "100".toList]
  | .TestcaseEvaluator =>
    (typesAndPercentages settings "evaluatorTypes".toList).map (splitString · ['='])
  | _ => []

/-- The subtype stands before the first `=` of an entry. -/
def Named (entries : List (List (List Char))) (subtype : List Char) : Prop :=
  ∃ entry ∈ entries, entry.head? = some subtype

/-- The entries of exactly two parts give subtypes and integers. -/
inductive Percentages : List (List (List Char)) → List (List Char × ℤ) → Prop
  | nil : Percentages [] []
  | pair {subtype percentage : List Char} {n : ℤ} {entries : List (List (List Char))}
      {desired : List (List Char × ℤ)} :
      stoi percentage = some n → Percentages entries desired →
        Percentages ([subtype, percentage] :: entries) ((subtype, n) :: desired)
  | other {entry : List (List Char)} {entries : List (List (List Char))}
      {desired : List (List Char × ℤ)} :
      entry.length ≠ 2 → Percentages entries desired → Percentages (entry :: entries) desired

theorem mem_acceptedFrom (entries : List (List Char)) (subtype : List Char) :
    subtype ∈ acceptedFrom entries ↔ Named (entries.map (splitString · ['='])) subtype := by
  have hhead (entry : List Char) :
      (splitString entry ['=']).headD [] = subtype ↔
        (splitString entry ['=']).head? = some subtype := by
    cases hparts : splitString entry ['='] with
    | nil => exact absurd hparts (splitString_ne_nil _ _)
    | cons part parts => simp
  simp only [acceptedFrom, Named, List.mem_toFinset, List.mem_map, hhead,
    exists_exists_and_eq_and]

theorem iswelcomed_iff (settings : List FluffiSetting) (type : AgentType)
    (implemented : List (List Char)) :
    iswelcomed settings type implemented = true ↔
      ∃ subtype ∈ implemented, Named (entriesOf settings type) subtype := by
  cases type with
  | TestcaseGenerator =>
    simp [iswelcomed, acceptedAgentSubTypes, entriesOf, mem_acceptedFrom]
  | TestcaseRunner =>
    simp [iswelcomed, acceptedAgentSubTypes, entriesOf, Named]
  | TestcaseEvaluator =>
    simp [iswelcomed, acceptedAgentSubTypes, entriesOf, mem_acceptedFrom]
  | GlobalManager => simp [iswelcomed, acceptedAgentSubTypes, entriesOf, Named]
  | LocalManager => simp [iswelcomed, acceptedAgentSubTypes, entriesOf, Named]

theorem desiredFrom_eq_some {entries : List (List Char)} {desired : List (List Char × ℤ)} :
    desiredFrom entries = some desired ↔
      Percentages (entries.map (splitString · ['='])) desired := by
  induction entries generalizing desired with
  | nil =>
    constructor
    · rintro ⟨⟩
      exact .nil
    · rintro ⟨⟩
      rfl
  | cons entry entries ih =>
    rw [List.map_cons]
    unfold desiredFrom
    split
    next subtype percentage hparts =>
      rw [hparts]
      simp only [Option.bind_eq_some_iff, Option.map_eq_some_iff]
      constructor
      · rintro ⟨n, hn, rest, hrest, rfl⟩
        exact .pair hn (ih.mp hrest)
      · intro h
        cases h with
        | pair hn hrest => exact ⟨_, hn, _, ih.mpr hrest, rfl⟩
        | other hlength _ => exact absurd rfl hlength
    next hparts =>
      have hlength : (splitString entry ['=']).length ≠ 2 := by
        intro h
        obtain ⟨subtype, percentage, heq⟩ := List.length_eq_two.mp h
        exact hparts _ _ heq
      rw [ih]
      constructor
      · exact .other hlength
      · generalize splitString entry ['='] = parts at hlength
        intro h
        cases h with
        | pair _ _ => exact absurd rfl hlength
        | other _ hrest => exact hrest

theorem desiredSubTypes_eq_some {settings : List FluffiSetting} {type : AgentType}
    {desired : List (List Char × ℤ)} :
    desiredSubTypes settings type = some desired ↔
      Percentages (entriesOf settings type) desired := by
  have hempty : some [] = some desired ↔ Percentages [] desired := by
    constructor
    · rintro ⟨⟩
      exact .nil
    · rintro ⟨⟩
      rfl
  cases type with
  | TestcaseGenerator => exact desiredFrom_eq_some
  | TestcaseEvaluator => exact desiredFrom_eq_some
  | TestcaseRunner =>
    unfold desiredSubTypes entriesOf
    cases settingValue settings "runnerType".toList with
    | none => exact hempty
    | some value =>
      constructor
      · rintro ⟨⟩
        exact .pair (by decide) .nil
      · rintro (_ | ⟨hn, ⟨⟩⟩ | ⟨hlength, -⟩)
        · obtain rfl := Option.some.inj (hn.symm.trans (by decide : stoi "100".toList = some 100))
          rfl
        · exact absurd rfl hlength
  | GlobalManager => exact hempty
  | LocalManager => exact hempty

end Fluffi.LocalManager
