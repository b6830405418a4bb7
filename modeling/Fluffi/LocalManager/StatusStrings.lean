import Fluffi.Shared.Identity
import Fluffi.Shared.Strings
import Fluffi.Systems.LineStreams
import Fluffi.Systems.Slices
import Fluffi.Systems.Texts
import Mathlib.Data.List.Nodup
import Mathlib.Logic.Function.Basic

/-! The status of an agent as a string of keys and values. An agent builds the string, the local
manager rewrites one key of it before it is stored, and the string is taken apart again when the
status is looked at. The first element has no blank in front, the others have one. -/

namespace Fluffi.LocalManager

open Fluffi.Shared Fluffi.Systems Fluffi.Systems.LineStream

/-- A key with its value. -/
abbrev StatusPair := List Char × List Char

/-! ### Building the string -/

/-- `K V |` -/
def statusPart (p : StatusPair) : List Char := p.1 ++ ' ' :: (p.2 ++ " |".toList)

/-- The first element, and the others with a blank in front. -/
def encodeStatus : List StatusPair → List Char
  | [] => []
  | p :: ps => statusPart p ++ ps.flatMap fun q => ' ' :: statusPart q

/-- `GetStatusRequestHandler::generateGeneralStatus`, with the numbers as they are printed. -/
def generateGeneralStatus (systemCPU processCPU averageRTT : List Char) : List Char :=
  "SysCPUUtil ".toList ++ systemCPU ++ " | ProcCPUUtil ".toList ++ processCPU ++
    " | AverageRTT ".toList ++ averageRTT ++ " |".toList

/-! ### Taking it apart -/

/-- What `strlen` sees of a string. -/
def readCString (text : List Char) : List Char := text.takeWhile (· ≠ '\x00')

/-- What the column, a `VARCHAR(1000)`, takes of a text. The server is strict: it cuts blanks off
that are too many, and refuses a text with anything else behind the thousandth character. -/
def statusColumn (text : List Char) : Option (List Char) :=
  if (text.drop 1000).all (· = ' ') then some (text.take 1000) else none

/-- `LMDatabaseManager::addNewManagedInstanceStatus`: the string that is stored, if it is. -/
def addNewManagedInstanceStatus (newStatus : List Char) : Option (List Char) :=
  statusColumn (readCString newStatus)

/-- The body of the loop over the elements. -/
def addElement (status : List Char → Option (List Char)) (element : List Char) :
    List Char → Option (List Char) :=
  match splitString element [' '] with
  | [key, value, _] => Function.update status key (some value)
  | [_, key, value, _] => Function.update status key (some value)
  | _ => status

/-- The status that `LMDatabaseManager::getStatusOfManagedInstances` makes of a stored string. -/
def statusOf (stored : List Char) : List Char → Option (List Char) :=
  (splitString (readCString stored) ['|']).foldl addElement fun _ => none

/-! ### Rewriting a key -/

def sinceLastRequest : List Char := "TestcasesSinceLastStatusRequest".toList

def perSecond : List Char := "TestcasesPerSecond".toList

/-- `std::to_string` of a thousand times a number of testcases over the length of the interval, as
a quotient of floating point numbers. -/
structure Rates where
  toText : ℤ → List Char
  clean : ∀ n, ∀ c ∈ toText n, c ≠ ' ' ∧ c ≠ '|' ∧ c ≠ '\x00'

/-- An element in the loop of `InstanceMonitorWorker::storeStatus`; `none` where the program ends
or its behaviour is undefined. -/
def rewriteElement (rates : Rates) (element : List Char) : Option (List Char) :=
  if element.take 32 = " TestcasesSinceLastStatusRequest".toList then do
    let text ← (splitString element [' '])[2]?
    let testcases ← stoi text
    let thousandfold ← toInt (testcases * 1000)
    return " TestcasesPerSecond ".toList ++ rates.toText thousandfold ++ [' ']
  else some element

/-- The loop over the elements, from index `i` on. -/
def rewriteElements (rates : Rates) : ℕ → List Char → List (List Char) → Option (List Char)
  | _, statusToStore, [] => some statusToStore
  | i, statusToStore, element :: elements => do
    let statusToStore := if i ≠ 0 then statusToStore ++ ['|'] else statusToStore
    let element ← rewriteElement rates element
    rewriteElements rates (i + 1) (statusToStore ++ element) elements

/-- `InstanceMonitorWorker::storeStatus`: the string that is stored, if it is; `none` where the
program ends or its behaviour is undefined. -/
def storeStatus (agentType : AgentType) (rates : Rates) (statusToStore : List Char) :
    Option (Option (List Char)) :=
  if agentType = .TestcaseRunner then
    (rewriteElements rates 0 [] (splitString statusToStore ['|'])).map addNewManagedInstanceStatus
  else some (addNewManagedInstanceStatus statusToStore)

/-! ### What should hold -/

/-- Pairs with distinct keys that are not empty, free of blanks and bars. -/
structure Status where
  pairs : List StatusPair
  distinct : (pairs.map Prod.fst).Nodup
  nonempty : ∀ p ∈ pairs, p.1 ≠ []
  clean : ∀ p ∈ pairs, ∀ c ∈ p.1 ++ p.2, c ≠ ' ' ∧ c ≠ '|'

/-- The status has exactly the pairs. -/
def Decodes (stored : List Char) (pairs : List StatusPair) : Prop :=
  ∀ key value, statusOf stored key = some value ↔ (key, value) ∈ pairs

/-- The number of testcases is made a rate. -/
def toRate (rates : Rates) (p : StatusPair) : StatusPair :=
  if p.1 = sinceLastRequest then
    (perSecond, rates.toText ((integerOf p.2).getD 0 * 1000))
  else p

def Status.storedPairs (s : Status) (agentType : AgentType) (rates : Rates) : List StatusPair :=
  if agentType = .TestcaseRunner then s.pairs.map (toRate rates) else s.pairs

/-- The string is decoded to the pairs, and what is stored of it to those with the rate. -/
structure Status.Survives (s : Status) (agentType : AgentType) (rates : Rates) : Prop where
  decoded : Decodes (encodeStatus s.pairs) s.pairs
  stored : ∃ text, storeStatus agentType rates (encodeStatus s.pairs) = some (some text) ∧
    Decodes text (s.storedPairs agentType rates)

/-- There is no zero character, and the number of testcases of a runner is found: not in the first
element, under no longer key, a thousandth of an `int`, and not next to another rate. -/
structure Status.Regular (s : Status) (agentType : AgentType) (rates : Rates) : Prop where
  noZero : ∀ p ∈ s.pairs, '\x00' ∉ p.1 ++ p.2
  notFirst : agentType = .TestcaseRunner → ∀ p ∈ s.pairs.head?, p.1 ≠ sinceLastRequest
  notLonger : agentType = .TestcaseRunner →
    ∀ p ∈ s.pairs.tail, sinceLastRequest <+: p.1 → p.1 = sinceLastRequest
  fits : agentType = .TestcaseRunner → ∀ value n, (sinceLastRequest, value) ∈ s.pairs →
    integerOf value = some n → IsInt (n * 1000)
  single : agentType = .TestcaseRunner → ∀ value n other, (sinceLastRequest, value) ∈ s.pairs →
    (perSecond, other) ∈ s.pairs → integerOf value = some n → other = rates.toText (n * 1000)

/-! ### Maps -/

def addPair (status : List Char → Option (List Char)) (p : StatusPair) :
    List Char → Option (List Char) :=
  Function.update status p.1 (some p.2)

/-- The map of the pairs. A later pair replaces an earlier one. -/
def mapOf (ps : List StatusPair) : List Char → Option (List Char) :=
  ps.foldl addPair fun _ => none

variable {ps qs : List StatusPair} {p q : StatusPair} {key value text : List Char} {rates : Rates}
  {agentType : AgentType}

theorem mapOf_append_singleton (ps : List StatusPair) (p : StatusPair) :
    mapOf (ps ++ [p]) = Function.update (mapOf ps) p.1 (some p.2) := by
  rw [mapOf, List.foldl_append]
  rfl

theorem mem_of_mapOf (h : mapOf ps key = some value) : (key, value) ∈ ps := by
  induction ps using List.reverseRecOn with
  | nil => cases h
  | append_singleton ps p ih =>
    rw [mapOf_append_singleton] at h
    by_cases hkey : key = p.1
    · subst hkey
      rw [Function.update_self, Option.some.injEq] at h
      subst h
      exact List.mem_append_right ps List.mem_cons_self
    · rw [Function.update_of_ne hkey] at h
      exact List.mem_append_left _ (ih h)

theorem mapOf_of_mem (h : (key, value) ∈ ps) :
    ∃ value', mapOf ps key = some value' ∧ (key, value') ∈ ps := by
  have hsome : ∃ value', mapOf ps key = some value' := by
    induction ps using List.reverseRecOn with
    | nil => cases h
    | append_singleton ps p ih =>
      rw [mapOf_append_singleton]
      by_cases hkey : key = p.1
      · exact ⟨p.2, by rw [hkey, Function.update_self]⟩
      · rw [Function.update_of_ne hkey]
        refine ih ((List.mem_append.mp h).resolve_right ?_)
        rw [List.mem_singleton]
        exact fun heq => hkey (congrArg Prod.fst heq)
  obtain ⟨value', hvalue'⟩ := hsome
  exact ⟨value', hvalue', mem_of_mapOf hvalue'⟩

/-- A map has exactly its pairs if none of their keys has two values. -/
theorem mapOf_eq_some_iff (h : ∀ key value value', (key, value) ∈ ps → (key, value') ∈ ps →
    value = value') : mapOf ps key = some value ↔ (key, value) ∈ ps := by
  refine ⟨mem_of_mapOf, fun hmem => ?_⟩
  obtain ⟨value', hmap, hmem'⟩ := mapOf_of_mem hmem
  rw [hmap, h key value' value hmem' hmem]

/-! ### The elements -/

/-- No blank and no bar. -/
def CleanPair (p : StatusPair) : Prop := ∀ c ∈ p.1 ++ p.2, c ≠ ' ' ∧ c ≠ '|'

def firstElement (p : StatusPair) : List Char := p.1 ++ ' ' :: (p.2 ++ [' '])

def laterElement (p : StatusPair) : List Char := ' ' :: firstElement p

def elementsOf : List StatusPair → List (List Char)
  | [] => []
  | p :: ps => firstElement p :: ps.map laterElement

theorem statusPart_eq (p : StatusPair) : statusPart p = firstElement p ++ ['|'] := by
  simp [statusPart, firstElement]

theorem encodeStatus_eq (ps : List StatusPair) : encodeStatus ps = joined '|' (elementsOf ps) := by
  cases ps with
  | nil => rfl
  | cons p ps =>
    rw [encodeStatus, elementsOf, joined, List.flatMap_cons, statusPart_eq, List.flatMap_map]
    simp only [statusPart_eq, laterElement, List.cons_append]

theorem CleanPair.notMem (h : CleanPair p) :
    ' ' ∉ p.1 ∧ ' ' ∉ p.2 ∧ '|' ∉ p.1 ∧ '|' ∉ p.2 := by
  have hblank : ' ' ∉ p.1 ++ p.2 := fun hmem => (h _ hmem).1 rfl
  have hbar : '|' ∉ p.1 ++ p.2 := fun hmem => (h _ hmem).2 rfl
  rw [List.mem_append, not_or] at hblank hbar
  exact ⟨hblank.1, hblank.2, hbar.1, hbar.2⟩

theorem bar_notMem_firstElement (h : CleanPair p) : '|' ∉ firstElement p := by
  obtain ⟨-, -, hkey, hvalue⟩ := h.notMem
  simp [firstElement, hkey, hvalue]

theorem splitOn_encodeStatus (h : ∀ p ∈ ps, CleanPair p) :
    (encodeStatus ps).splitOn '|' = elementsOf ps ++ [[]] := by
  have hbar : ∀ e ∈ elementsOf ps, '|' ∉ e := by
    cases ps with
    | nil => simp [elementsOf]
    | cons p ps =>
      rw [List.forall_mem_cons] at h
      rw [elementsOf, List.forall_mem_cons, List.forall_mem_map]
      refine ⟨bar_notMem_firstElement h.1, fun q hq => ?_⟩
      rw [laterElement, List.mem_cons, not_or]
      exact ⟨by decide, bar_notMem_firstElement (h.2 q hq)⟩
  rw [encodeStatus_eq, ← List.append_nil (joined '|' (elementsOf ps)),
    splitOn_joined_append hbar, List.splitOn_nil]

theorem splitOn_firstElement (h : CleanPair p) :
    (firstElement p).splitOn ' ' = [p.1, p.2, []] := by
  obtain ⟨hkey, hvalue, -, -⟩ := h.notMem
  rw [firstElement, List.splitOn_append_cons_self_of_not_mem hkey,
    List.splitOn_append_cons_self_of_not_mem hvalue, List.splitOn_nil]

theorem splitOn_laterElement (h : CleanPair p) :
    (laterElement p).splitOn ' ' = [[], p.1, p.2, []] := by
  rw [laterElement, ← List.nil_append (' ' :: firstElement p),
    List.splitOn_append_cons_self_of_not_mem List.not_mem_nil, splitOn_firstElement h]

theorem addElement_firstElement (h : CleanPair p) (status : List Char → Option (List Char)) :
    addElement status (firstElement p) = addPair status p := by
  rw [addPair, addElement, splitString_singleton, splitOn_firstElement h]

theorem addElement_laterElement (h : CleanPair p) (status : List Char → Option (List Char)) :
    addElement status (laterElement p) = addPair status p := by
  rw [addPair, addElement, splitString_singleton, splitOn_laterElement h]

theorem foldl_addElement (h : ∀ p ∈ ps, CleanPair p) :
    (elementsOf ps ++ [[]]).foldl addElement (fun _ => none) = mapOf ps := by
  have hlater : ∀ (ps : List StatusPair) (status : List Char → Option (List Char)),
      (∀ p ∈ ps, CleanPair p) →
      (ps.map laterElement).foldl addElement status = ps.foldl addPair status := by
    intro ps
    induction ps with
    | nil => exact fun status _ => rfl
    | cons p ps ih =>
      intro status hclean
      rw [List.forall_mem_cons] at hclean
      rw [List.map_cons, List.foldl_cons, addElement_laterElement hclean.1, ih _ hclean.2,
        List.foldl_cons]
  have hempty : ∀ status, addElement status [] = status := fun _ => rfl
  rw [List.foldl_append, List.foldl_cons, List.foldl_nil, hempty]
  cases ps with
  | nil => rfl
  | cons p ps =>
    rw [List.forall_mem_cons] at h
    rw [elementsOf, List.foldl_cons, addElement_firstElement h.1, hlater ps _ h.2]
    rfl

/-- What every agent says of itself are three pairs, and those of its kind come behind them. -/
theorem generateGeneralStatus_eq (systemCPU processCPU averageRTT : List Char) :
    generateGeneralStatus systemCPU processCPU averageRTT =
      encodeStatus [("SysCPUUtil".toList, systemCPU), ("ProcCPUUtil".toList, processCPU),
        ("AverageRTT".toList, averageRTT)] := by
  have hsystem : "SysCPUUtil ".toList = "SysCPUUtil".toList ++ [' '] := by decide
  have hprocess : " | ProcCPUUtil ".toList =
      " |".toList ++ ' ' :: ("ProcCPUUtil".toList ++ [' ']) := by decide
  have haverage : " | AverageRTT ".toList =
      " |".toList ++ ' ' :: ("AverageRTT".toList ++ [' ']) := by decide
  unfold generateGeneralStatus
  rw [hsystem, hprocess, haverage]
  unfold encodeStatus statusPart
  clear hsystem hprocess haverage
  generalize "SysCPUUtil".toList = system
  generalize "ProcCPUUtil".toList = process
  generalize "AverageRTT".toList = average
  generalize " |".toList = bar
  simp only [List.flatMap_cons, List.flatMap_nil, List.append_assoc, List.cons_append,
    List.nil_append, List.append_nil]

theorem encodeStatus_append (hne : ps ≠ []) (qs : List StatusPair) :
    encodeStatus (ps ++ qs) = encodeStatus ps ++ qs.flatMap fun q => ' ' :: statusPart q := by
  cases ps with
  | nil => exact absurd rfl hne
  | cons p ps => rw [List.cons_append, encodeStatus, encodeStatus, List.flatMap_append,
      List.append_assoc]

theorem generateGeneralStatus_append (systemCPU processCPU averageRTT : List Char)
    (qs : List StatusPair) :
    (generateGeneralStatus systemCPU processCPU averageRTT ++
        qs.flatMap fun q => ' ' :: statusPart q) =
      encodeStatus (("SysCPUUtil".toList, systemCPU) :: ("ProcCPUUtil".toList, processCPU) ::
        ("AverageRTT".toList, averageRTT) :: qs) := by
  rw [generateGeneralStatus_eq, ← encodeStatus_append (List.cons_ne_nil _ _)]
  rfl

/-! ### Zero characters -/

theorem readCString_eq_self (h : '\x00' ∉ text) : readCString text = text := by
  rw [readCString, List.takeWhile_eq_self_iff]
  intro c hc
  rw [decide_eq_true_eq]
  rintro rfl
  exact h hc

theorem zero_notMem_readCString (text : List Char) : '\x00' ∉ readCString text := by
  intro h
  have := List.mem_takeWhile_imp h
  simp at this

theorem zero_notMem_encodeStatus (h : ∀ p ∈ ps, '\x00' ∉ p.1 ++ p.2) :
    '\x00' ∉ encodeStatus ps := by
  have hpart : ∀ p ∈ ps, '\x00' ∉ statusPart p := by
    intro p hp
    have hzero := h p hp
    rw [List.mem_append, not_or] at hzero
    simp [statusPart, hzero.1, hzero.2]
  cases ps with
  | nil => exact List.not_mem_nil
  | cons p ps =>
    rw [List.forall_mem_cons] at hpart
    rw [encodeStatus, List.mem_append, List.mem_flatMap, not_or]
    refine ⟨hpart.1, ?_⟩
    rintro ⟨q, hq, hmem⟩
    rw [List.mem_cons] at hmem
    exact hmem.elim (by decide) (hpart.2 q hq)

theorem statusOf_encodeStatus (hclean : ∀ p ∈ ps, CleanPair p)
    (hzero : ∀ p ∈ ps, '\x00' ∉ p.1 ++ p.2) :
    statusOf (encodeStatus ps) = mapOf ps := by
  rw [statusOf, readCString_eq_self (zero_notMem_encodeStatus hzero), splitString_singleton,
    splitOn_encodeStatus hclean, foldl_addElement hclean]

/-- The string ends with a bar, so that no blanks are cut off. -/
theorem exists_encodeStatus_eq (hne : ps ≠ []) : ∃ text, encodeStatus ps = text ++ ['|'] := by
  obtain ⟨p, ps, rfl⟩ := List.exists_cons_of_ne_nil hne
  rcases List.eq_nil_or_concat ps with rfl | ⟨qs, q, rfl⟩
  · exact ⟨firstElement p, by rw [encodeStatus, List.flatMap_nil, List.append_nil, statusPart_eq]⟩
  · refine ⟨statusPart p ++ ((qs.flatMap fun q => ' ' :: statusPart q) ++ laterElement q), ?_⟩
    rw [encodeStatus, List.concat_eq_append, List.flatMap_append, List.flatMap_singleton,
      statusPart_eq q, laterElement]
    simp only [List.append_assoc, List.cons_append]

/-- Without zero characters a string of a thousand characters at most is stored, and a longer one is
refused. -/
theorem addNewManagedInstanceStatus_eq_some_iff (hzero : ∀ p ∈ ps, '\x00' ∉ p.1 ++ p.2) :
    addNewManagedInstanceStatus (encodeStatus ps) = some text ↔
      (encodeStatus ps).length ≤ 1000 ∧ text = encodeStatus ps := by
  rw [addNewManagedInstanceStatus, readCString_eq_self (zero_notMem_encodeStatus hzero),
    statusColumn]
  rcases Nat.lt_or_ge 1000 (encodeStatus ps).length with hlong | hshort
  · rw [if_neg]
    · exact iff_of_false (Option.some_ne_none _).symm fun h => absurd h.1 (Nat.not_le.mpr hlong)
    · intro hblank
      obtain ⟨init, hinit⟩ := exists_encodeStatus_eq (by
        rintro rfl
        exact absurd hlong (by decide) : ps ≠ [])
      rw [hinit, List.length_append, List.length_singleton] at hlong
      rw [hinit, List.drop_append_of_le_length (by omega), List.all_append] at hblank
      simp at hblank
  · rw [List.drop_eq_nil_of_le hshort, List.take_of_length_le hshort,
      if_pos List.all_nil, Option.some.injEq, eq_comm]
    exact (and_iff_right hshort).symm

def NoZero (status : List Char → Option (List Char)) : Prop :=
  ∀ key value, status key = some value → '\x00' ∉ key ++ value

theorem NoZero.addPair {status : List Char → Option (List Char)} (h : NoZero status)
    (hp : '\x00' ∉ p.1 ++ p.2) : NoZero (addPair status p) := by
  intro key value heq
  rw [LocalManager.addPair] at heq
  by_cases hkey : key = p.1
  · subst hkey
    rw [Function.update_self, Option.some.injEq] at heq
    subst heq
    exact hp
  · rw [Function.update_of_ne hkey] at heq
    exact h key value heq

theorem NoZero.addElement {status : List Char → Option (List Char)} (h : NoZero status)
    {element : List Char} (helement : '\x00' ∉ element) : NoZero (addElement status element) := by
  have hparts : ∀ part ∈ splitString element [' '], '\x00' ∉ part := by
    intro part hpart hmem
    rw [splitString_singleton] at hpart
    exact helement (subset_of_mem_splitOn hpart hmem)
  unfold LocalManager.addElement
  split
  case h_1 k v _ heq =>
    rw [heq] at hparts
    exact h.addPair (p := (k, v)) (by simp [hparts k, hparts v])
  case h_2 k v _ heq =>
    rw [heq] at hparts
    exact h.addPair (p := (k, v)) (by simp [hparts k, hparts v])
  case h_3 => exact h

/-- What is stored has lost everything from a zero character on. -/
theorem noZero_statusOf (text : List Char) : NoZero (statusOf text) := by
  have hfold : ∀ (es : List (List Char)) (status : List Char → Option (List Char)),
      NoZero status → (∀ e ∈ es, '\x00' ∉ e) → NoZero (es.foldl addElement status) := by
    intro es
    induction es with
    | nil => exact fun status h _ => h
    | cons e es ih =>
      intro status h hes
      rw [List.forall_mem_cons] at hes
      exact ih _ (h.addElement hes.1) hes.2
  refine hfold _ _ (fun key value hnone => ?_) fun e he hmem => ?_
  · cases hnone
  · rw [splitString_singleton] at he
    exact zero_notMem_readCString text (subset_of_mem_splitOn he hmem)

end Fluffi.LocalManager
