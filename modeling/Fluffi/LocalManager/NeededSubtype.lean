import Fluffi.LocalManager.Welcome
import Mathlib.Algebra.Order.BigOperators.Group.List
import Mathlib.Algebra.Order.Group.Int

/-! The subtype that is needed most. The percentages are scaled to a sum of hundred, both for what
the setting wants and for what is registered, and the subtype with the largest difference among
those that the agent implements is chosen. -/

namespace Fluffi.LocalManager

open Shared
open Std (TreeMap)

/-! ### Percentages of a sum -/

def total (subTypes : List (List Char × ℤ)) : ℤ := (subTypes.map Prod.snd).sum

/-- No step of adding the numbers up or scaling them to hundred leaves the `int`s. -/
structure NumbersFit (subTypes : List (List Char × ℤ)) : Prop where
  sums : ∀ n < subTypes.length, IsInt (total (subTypes.take (n + 1)))
  products : ∀ subType ∈ subTypes, IsInt (subType.2 * 100)

/-- The share of a subtype in the total, in percent. -/
def percentOf (subTypes : List (List Char × ℤ)) (subtype : List Char) : ℤ :=
  ((subTypes.lookup subtype).getD 0 * 100).tdiv (total subTypes)

theorem sumOfAllSubtypes_eq_some {subTypes : List (List Char × ℤ)} {sum result : ℤ} :
    sumOfAllSubtypes sum subTypes = some result ↔
      (∀ n < subTypes.length, IsInt (sum + total (subTypes.take (n + 1)))) ∧
        result = sum + total subTypes := by
  induction subTypes generalizing sum with
  | nil => simp [sumOfAllSubtypes, total, eq_comm]
  | cons subType subTypes ih =>
    have htotal (l : List (List Char × ℤ)) :
        sum + total (subType :: l) = sum + subType.2 + total l := by
      simp [total, add_assoc]
    simp only [sumOfAllSubtypes, Option.bind_eq_some_iff, toInt_eq_some, List.length_cons,
      List.take_succ_cons, htotal]
    constructor
    · rintro ⟨_, ⟨hint, rfl⟩, hrest⟩
      obtain ⟨hsums, hresult⟩ := ih.mp hrest
      refine ⟨fun n hn => ?_, hresult⟩
      cases n with
      | zero => simpa [total] using hint
      | succ n => exact hsums n (by omega)
    · rintro ⟨hsums, hresult⟩
      have hint : IsInt (sum + subType.2) := by simpa [total] using hsums 0 (by omega)
      exact ⟨_, ⟨hint, rfl⟩, ih.mpr ⟨fun n hn => hsums (n + 1) (by omega), hresult⟩⟩

theorem shareOfSum_eq_some {subTypes result : List (List Char × ℤ)} {sum : ℤ} :
    shareOfSum sum subTypes = some result ↔
      (∀ subType ∈ subTypes, IsInt (subType.2 * 100)) ∧ (subTypes = [] ∨ sum ≠ 0) ∧
        result = subTypes.map fun subType => (subType.1, (subType.2 * 100).tdiv sum) := by
  induction subTypes generalizing result with
  | nil => simp [shareOfSum, eq_comm]
  | cons subType subTypes ih =>
    by_cases hsum : sum = 0
    · simp [shareOfSum, hsum]
    · simp only [shareOfSum, if_neg hsum, Option.bind_eq_some_iff, Option.map_eq_some_iff,
        toInt_eq_some, ih, List.forall_mem_cons, List.map_cons]
      constructor
      · rintro ⟨_, ⟨hint, rfl⟩, _, ⟨hproducts, -, rfl⟩, rfl⟩
        exact ⟨⟨hint, hproducts⟩, .inr hsum, rfl⟩
      · rintro ⟨⟨hint, hproducts⟩, -, rfl⟩
        exact ⟨_, ⟨hint, rfl⟩, _, ⟨hproducts, .inr hsum, rfl⟩, rfl⟩

theorem normalize_eq_some {subTypes result : List (List Char × ℤ)} :
    normalize subTypes = some result ↔
      NumbersFit subTypes ∧ (subTypes = [] ∨ total subTypes ≠ 0) ∧
        result = subTypes.map fun subType =>
          (subType.1, (subType.2 * 100).tdiv (total subTypes)) := by
  simp only [normalize, Option.bind_eq_some_iff, sumOfAllSubtypes_eq_some, shareOfSum_eq_some,
    zero_add]
  constructor
  · rintro ⟨_, ⟨hsums, rfl⟩, hproducts, hrest⟩
    exact ⟨⟨hsums, hproducts⟩, hrest⟩
  · rintro ⟨hfits, hrest⟩
    exact ⟨_, ⟨hfits.sums, rfl⟩, hfits.products, hrest⟩

/-- The first entry of a subtype decides its value in the map. -/
theorem getElem?_asMap (subTypes : List (List Char × ℤ)) (map : TreeMap (List Char) ℤ)
    (subtype : List Char) :
    (asMap subTypes map)[subtype]? = (map[subtype]?).or (subTypes.lookup subtype) := by
  induction subTypes generalizing map with
  | nil => simp [asMap]
  | cons subType subTypes ih =>
    rw [asMap, ih, TreeMap.getElem?_insertIfNew, List.lookup_cons]
    by_cases hkey : subType.1 = subtype
    · subst hkey
      by_cases hmem : subType.1 ∈ map
      · simp [hmem]
      · simp [hmem]
    · have hbeq : (subtype == subType.1) = false := beq_false_of_ne fun h => hkey h.symm
      simp [hkey, hbeq]

theorem getElem?_asMap_normalized {subTypes result : List (List Char × ℤ)}
    (h : normalize subTypes = some result) (subtype : List Char) :
    (asMap result ∅)[subtype]? =
      if (subTypes.lookup subtype).isSome then some (percentOf subTypes subtype) else none := by
  obtain ⟨-, -, rfl⟩ := normalize_eq_some.mp h
  rw [getElem?_asMap]
  have hlookup (l : List (List Char × ℤ)) (sum : ℤ) :
      (l.map fun subType => (subType.1, (subType.2 * 100).tdiv sum)).lookup subtype =
        (l.lookup subtype).map fun n => (n * 100).tdiv sum := by
    induction l with
    | nil => rfl
    | cons subType l ih =>
      rw [List.map_cons, List.lookup_cons, List.lookup_cons, ih]
      cases subtype == subType.1 <;> rfl
  rw [hlookup]
  unfold percentOf
  cases subTypes.lookup subtype <;> simp

/-! ### Percentages that are not negative -/

section Nonneg

variable {subTypes : List (List Char × ℤ)}

theorem le_total (hnonneg : ∀ subType ∈ subTypes, 0 ≤ subType.2) :
    ∀ subType ∈ subTypes, subType.2 ≤ total subTypes := by
  intro subType hmem
  refine List.single_le_sum ?_ _ (List.mem_map_of_mem hmem)
  simpa using fun n name h => hnonneg (name, n) h

theorem total_take_mem (hnonneg : ∀ subType ∈ subTypes, 0 ≤ subType.2) (n : ℕ) :
    0 ≤ total (subTypes.take n) ∧ total (subTypes.take n) ≤ total subTypes := by
  have hsub : ((subTypes.take n).map Prod.snd).Sublist (subTypes.map Prod.snd) :=
    (List.take_sublist n subTypes).map _
  have hpositive : ∀ k ∈ subTypes.map Prod.snd, 0 ≤ k := by
    simpa using fun n name h => hnonneg (name, n) h
  constructor
  · exact List.sum_nonneg fun k hk => hpositive k (hsub.subset hk)
  · exact hsub.sum_le_sum hpositive

theorem numbersFit_of_nonneg (hnonneg : ∀ subType ∈ subTypes, 0 ≤ subType.2)
    (hsmall : total subTypes * 100 < 2 ^ 31) : NumbersFit subTypes where
  sums n _ := by
    have hsum := total_take_mem hnonneg (n + 1)
    constructor <;> omega
  products subType hmem := by
    have hle := le_total hnonneg subType hmem
    have hpositive := hnonneg subType hmem
    constructor <;> omega

/-- Percentages that are not negative normalize to at most hundred. -/
theorem percentOf_mem (hnonneg : ∀ subType ∈ subTypes, 0 ≤ subType.2) (subtype : List Char) :
    0 ≤ percentOf subTypes subtype ∧ percentOf subTypes subtype ≤ 100 := by
  unfold percentOf
  cases hlookup : subTypes.lookup subtype with
  | none => simp
  | some n =>
    obtain ⟨l₁, l₂, rfl, -⟩ := List.lookup_eq_some_iff.mp hlookup
    have hmem : (subtype, n) ∈ l₁ ++ (subtype, n) :: l₂ := by simp
    have hpositive := hnonneg _ hmem
    have hle := le_total hnonneg _ hmem
    generalize total (l₁ ++ (subtype, n) :: l₂) = sum at hle
    rw [Option.getD_some, Int.tdiv_eq_ediv_of_nonneg (by omega)]
    constructor
    · exact Int.ediv_nonneg (by omega) (by omega)
    · by_cases hsum : sum = 0
      · simp [hsum]
      · exact Int.ediv_le_of_le_mul (by omega) (by omega)

end Nonneg

/-! ### The subtype that is needed most -/

/-- What the rows count. -/
def instanceNumbers (rows : List (List Char × ℕ+)) : List (List Char × ℤ) :=
  rows.map fun row => (row.1, (row.2 : ℤ))

/-- How many more percent of a subtype are desired than active. -/
def need (desired active : List (List Char × ℤ)) (subtype : List Char) : ℤ :=
  percentOf desired subtype - percentOf active subtype

theorem getRegisteredInstancesNumOfSubTypes_eq_some {rows : List (List Char × ℕ+)}
    {current : List (List Char × ℤ)} :
    getRegisteredInstancesNumOfSubTypes rows = some current ↔
      (∀ row ∈ rows, IsInt row.2) ∧ current = instanceNumbers rows := by
  induction rows generalizing current with
  | nil => simp [getRegisteredInstancesNumOfSubTypes, instanceNumbers, eq_comm]
  | cons row rows ih =>
    simp only [getRegisteredInstancesNumOfSubTypes, Option.bind_eq_some_iff,
      Option.map_eq_some_iff, toInt_eq_some, ih, List.forall_mem_cons]
    constructor
    · rintro ⟨_, ⟨hint, rfl⟩, _, ⟨hrows, rfl⟩, rfl⟩
      exact ⟨⟨hint, hrows⟩, rfl⟩
    · rintro ⟨⟨hint, hrows⟩, rfl⟩
      exact ⟨_, ⟨hint, rfl⟩, _, ⟨hrows, rfl⟩, rfl⟩

theorem instanceNumbers_isInt {rows : List (List Char × ℕ+)}
    (hfits : NumbersFit (instanceNumbers rows)) : ∀ row ∈ rows, IsInt row.2 := by
  intro row hrow
  have hproduct := hfits.products _ (List.mem_map_of_mem hrow)
  unfold IsInt at hproduct ⊢
  constructor <;> omega

theorem total_instanceNumbers_ne_zero {rows : List (List Char × ℕ+)} (hrows : rows ≠ []) :
    total (instanceNumbers rows) ≠ 0 := by
  have hnonneg (rows : List (List Char × ℕ+)) : 0 ≤ total (instanceNumbers rows) := by
    induction rows with
    | nil => exact le_rfl
    | cons row rows ih =>
      have hcons : total (instanceNumbers (row :: rows)) =
          row.2 + total (instanceNumbers rows) := by
        simp [total, instanceNumbers]
      omega
  cases rows with
  | nil => exact absurd rfl hrows
  | cons row rows =>
    have hcons : total (instanceNumbers (row :: rows)) =
        row.2 + total (instanceNumbers rows) := by
      simp [total, instanceNumbers]
    have hpos := row.2.pos
    have hrest := hnonneg rows
    omega

/-- The registered instances are read and scaled exactly where their numbers fit. -/
theorem normalize_instances_eq_some {rows : List (List Char × ℕ+)}
    {current : List (List Char × ℤ)} :
    (getRegisteredInstancesNumOfSubTypes rows).bind normalize = some current ↔
      NumbersFit (instanceNumbers rows) ∧ normalize (instanceNumbers rows) = some current := by
  simp only [Option.bind_eq_some_iff, getRegisteredInstancesNumOfSubTypes_eq_some]
  constructor
  · rintro ⟨_, ⟨-, rfl⟩, hnormalize⟩
    exact ⟨(normalize_eq_some.mp hnormalize).1, hnormalize⟩
  · rintro ⟨hfits, hnormalize⟩
    exact ⟨_, ⟨instanceNumbers_isInt hfits, rfl⟩, hnormalize⟩

theorem subtypeDiffs_isSome {desired current diffs : TreeMap (List Char) ℤ}
    {implemented : List (List Char)} :
    (subtypeDiffs desired current implemented diffs).isSome ↔
      ∀ subtype ∈ implemented, ∀ v, desired[subtype]? = some v →
        IsInt (v - (current[subtype]?).getD 0) := by
  induction implemented generalizing diffs with
  | nil => simp [subtypeDiffs]
  | cons subtype implemented ih =>
    rw [List.forall_mem_cons, subtypeDiffs]
    cases hdesired : desired[subtype]? with
    | none => simp [ih]
    | some v =>
      by_cases hint : IsInt (v - (current[subtype]?).getD 0)
      · simp [toInt, hint, ih]
      · simp [toInt, hint]

theorem getElem?_subtypeDiffs {desired current diffs result : TreeMap (List Char) ℤ}
    {implemented : List (List Char)}
    (h : subtypeDiffs desired current implemented diffs = some result) (subtype : List Char) :
    result[subtype]? = (diffs[subtype]?).or (if subtype ∈ implemented then
      (desired[subtype]?).map fun v => v - (current[subtype]?).getD 0 else none) := by
  induction implemented generalizing diffs with
  | nil =>
    obtain rfl := Option.some.inj h
    simp
  | cons first implemented ih =>
    rw [subtypeDiffs] at h
    cases hdesired : desired[first]? with
    | none =>
      rw [hdesired] at h
      rw [ih h]
      by_cases hfirst : subtype = first
      · subst hfirst
        simp [hdesired]
      · simp [hfirst]
    | some v =>
      simp only [hdesired, Option.bind_eq_some_iff, toInt_eq_some] at h
      obtain ⟨_, ⟨-, rfl⟩, h⟩ := h
      rw [ih h, TreeMap.getElem?_insertIfNew]
      by_cases hfirst : first = subtype
      · subst hfirst
        by_cases hmem : first ∈ diffs
        · simp [hmem]
        · simp [hmem, hdesired]
      · have hne : ¬ subtype = first := fun h => hfirst h.symm
        simp [hfirst, hne]

/-- Among named subtypes one is chosen exactly where one exceeds the initial value. -/
theorem neededMost_ne_nil {diffs : List (List Char × ℤ)} {max : List Char × ℤ}
    (hnames : ∀ it ∈ diffs, it.1 ≠ []) :
    (neededMost diffs max).1 ≠ [] ↔ max.1 ≠ [] ∨ ∃ it ∈ diffs, max.2 < it.2 := by
  induction diffs generalizing max with
  | nil => simp [neededMost]
  | cons it diffs ih =>
    obtain ⟨hname, hnames⟩ := List.forall_mem_cons.mp hnames
    rw [neededMost, ih hnames]
    by_cases hmax : it.2 > max.2
    · simp [hmax, hname]
    · rw [if_neg hmax, List.exists_mem_cons_iff]
      simp [hmax]

/-- A map yields the empty name first. -/
theorem empty_name_first {l : List (List Char × ℤ)}
    (hordered : l.Pairwise fun a b => compare a.1 b.1 = .lt) (h : ¬ ∀ it ∈ l, it.1 ≠ []) :
    ∃ first rest, l = ([], first) :: rest ∧ ∀ it ∈ rest, it.1 ≠ [] := by
  cases l with
  | nil => exact absurd (fun _ => nofun) h
  | cons it rest =>
    obtain ⟨hfirst, -⟩ := List.pairwise_cons.mp hordered
    have hnames : ∀ next ∈ rest, next.1 ≠ [] := by
      intro next hnext hnil
      have hlt := hfirst next hnext
      rw [hnil] at hlt
      cases hit : it.1 <;> simp [hit] at hlt
    obtain ⟨name, first⟩ := it
    by_cases hname : name = []
    · exact ⟨first, rest, by rw [hname], hnames⟩
    · refine absurd ?_ h
      rw [List.forall_mem_cons]
      exact ⟨hname, hnames⟩

/-- So a subtype has to exceed the empty one to be chosen. -/
theorem neededMost_toList_ne_nil (diffs : TreeMap (List Char) ℤ) :
    (neededMost diffs.toList ([], -200)).1 ≠ [] ↔
      ∃ (subtype : List Char) (v : ℤ), subtype ≠ [] ∧ diffs[subtype]? = some v ∧ -200 < v ∧
        ∀ w, diffs[([] : List Char)]? = some w → w < v := by
  have hmem {subtype : List Char} {v : ℤ} :
      diffs[subtype]? = some v ↔ (subtype, v) ∈ diffs.toList :=
    TreeMap.mem_toList_iff_getElem?_eq_some.symm
  simp only [hmem]
  have hordered := TreeMap.ordered_keys_toList (t := diffs)
  generalize diffs.toList = l at hordered
  by_cases hall : ∀ it ∈ l, it.1 ≠ []
  · rw [neededMost_ne_nil hall]
    constructor
    · rintro (hchosen | ⟨it, hit, hv⟩)
      · exact absurd rfl hchosen
      · exact ⟨it.1, it.2, hall it hit, hit, hv, fun w hempty => absurd rfl (hall _ hempty)⟩
    · rintro ⟨subtype, v, -, hin, hv, -⟩
      exact .inr ⟨_, hin, hv⟩
  · obtain ⟨first, rest, rfl, hnames⟩ := empty_name_first hordered hall
    have hempty (w : ℤ) : ([], w) ∉ rest := fun h => hnames _ h rfl
    have hmax : (if first > -200 then ([], first) else ([], -200) : List Char × ℤ) =
        ([], max first (-200)) := by
      split_ifs with h
      · rw [max_eq_left (le_of_lt h)]
      · rw [max_eq_right (not_lt.mp h)]
    rw [neededMost, neededMost_ne_nil hnames]
    simp only [hmax, List.mem_cons, Prod.mk.injEq, true_and, hempty, or_false, ne_eq,
      not_true_eq_false, false_or, forall_eq, max_lt_iff]
    constructor
    · rintro ⟨⟨subtype, v⟩, hrest, hv, hleast⟩
      exact ⟨subtype, v, hnames _ hrest, .inr hrest, hleast, hv⟩
    · rintro ⟨subtype, v, hsubtype, ⟨rfl, -⟩ | hrest, hleast, hv⟩
      · exact absurd rfl hsubtype
      · exact ⟨_, hrest, hv, hleast⟩

/-- The setting and the registered instances let one of the implemented subtypes be
chosen: nothing overflows, the percentages are not all lost in a sum of zero, and a
subtype with a name is needed more than the empty one and than -200. -/
structure Chooses (desired active : List (List Char × ℤ)) (implemented : List (List Char)) :
    Prop where
  desired_fits : NumbersFit desired
  total_ne_zero : total desired ≠ 0
  active_fits : NumbersFit active
  needs_fit : ∀ subtype ∈ implemented, (desired.lookup subtype).isSome →
    IsInt (need desired active subtype)
  needed : ∃ subtype ∈ implemented, subtype ≠ [] ∧ (desired.lookup subtype).isSome ∧
    -200 < need desired active subtype ∧
    ([] ∈ implemented → (desired.lookup []).isSome →
      need desired active [] < need desired active subtype)

theorem getD_asMap_normalized {subTypes result : List (List Char × ℤ)}
    (h : normalize subTypes = some result) (subtype : List Char) :
    ((asMap result ∅)[subtype]?).getD 0 = percentOf subTypes subtype := by
  rw [getElem?_asMap_normalized h]
  cases hlookup : subTypes.lookup subtype with
  | none => simp [percentOf, hlookup]
  | some n => rfl

/-- The difference that `subtypeDiffs` takes is the need. -/
theorem map_sub_normalized {desired active normalized current : List (List Char × ℤ)}
    (hdesired : normalize desired = some normalized) (hactive : normalize active = some current)
    (subtype : List Char) :
    ((asMap normalized ∅)[subtype]?).map
        (fun v => v - ((asMap current ∅)[subtype]?).getD 0) =
      if (desired.lookup subtype).isSome then some (need desired active subtype) else none := by
  rw [getElem?_asMap_normalized hdesired, getD_asMap_normalized hactive]
  split_ifs
  · rfl
  · rfl

theorem subtypeDiffs_normalized_isSome {desired active normalized current : List (List Char × ℤ)}
    (hdesired : normalize desired = some normalized) (hactive : normalize active = some current)
    (implemented : List (List Char)) :
    (subtypeDiffs (asMap normalized ∅) (asMap current ∅) implemented ∅).isSome ↔
      ∀ subtype ∈ implemented, (desired.lookup subtype).isSome →
        IsInt (need desired active subtype) := by
  rw [subtypeDiffs_isSome]
  refine forall₂_congr fun subtype _ => ?_
  have hsub := map_sub_normalized hdesired hactive subtype
  by_cases hlookup : (desired.lookup subtype).isSome
  · rw [if_pos hlookup, Option.map_eq_some_iff] at hsub
    obtain ⟨v, hv, hneed⟩ := hsub
    simp [hv, hneed, hlookup]
  · rw [if_neg hlookup, Option.map_eq_none_iff] at hsub
    simp [hsub, hlookup]

theorem getElem?_subtypeDiffs_normalized
    {desired active normalized current : List (List Char × ℤ)}
    (hdesired : normalize desired = some normalized) (hactive : normalize active = some current)
    {implemented : List (List Char)} {diffs : TreeMap (List Char) ℤ}
    (h : subtypeDiffs (asMap normalized ∅) (asMap current ∅) implemented ∅ = some diffs)
    (subtype : List Char) (v : ℤ) :
    diffs[subtype]? = some v ↔ subtype ∈ implemented ∧ (desired.lookup subtype).isSome ∧
      need desired active subtype = v := by
  rw [getElem?_subtypeDiffs h, map_sub_normalized hdesired hactive]
  simp

/-- The differences are taken where they fit, and one is chosen where it is the greatest. -/
theorem subtypeDiffs_chosen {desired active normalized current : List (List Char × ℤ)}
    (hdesired : normalize desired = some normalized) (hactive : normalize active = some current)
    (implemented : List (List Char)) :
    (∃ diffs, subtypeDiffs (asMap normalized ∅) (asMap current ∅) implemented ∅ = some diffs ∧
        (neededMost diffs.toList ([], -200)).1 ≠ []) ↔
      (∀ subtype ∈ implemented, (desired.lookup subtype).isSome →
          IsInt (need desired active subtype)) ∧
        ∃ subtype ∈ implemented, subtype ≠ [] ∧ (desired.lookup subtype).isSome ∧
          -200 < need desired active subtype ∧
          ([] ∈ implemented → (desired.lookup []).isSome →
            need desired active [] < need desired active subtype) := by
  rw [← subtypeDiffs_normalized_isSome hdesired hactive implemented, Option.isSome_iff_exists]
  constructor
  · rintro ⟨diffs, h, hne⟩
    have hchosen := getElem?_subtypeDiffs_normalized hdesired hactive h
    obtain ⟨subtype, v, hname, hsome, hv, hleast⟩ := (neededMost_toList_ne_nil diffs).mp hne
    obtain ⟨hmem, hlookup, rfl⟩ := (hchosen _ _).mp hsome
    refine ⟨⟨diffs, h⟩, subtype, hmem, hname, hlookup, hv, fun hempty hlisted => ?_⟩
    exact hleast _ ((hchosen _ _).mpr ⟨hempty, hlisted, rfl⟩)
  · rintro ⟨⟨diffs, h⟩, subtype, hmem, hname, hlookup, hv, hleast⟩
    have hchosen := getElem?_subtypeDiffs_normalized hdesired hactive h
    refine ⟨diffs, h, (neededMost_toList_ne_nil diffs).mpr ⟨subtype, _, hname,
      (hchosen _ _).mpr ⟨hmem, hlookup, rfl⟩, hv, fun w hw => ?_⟩⟩
    obtain ⟨hempty, hlisted, rfl⟩ := (hchosen _ _).mp hw
    exact hleast hempty hlisted

/-- The registration finds a subtype exactly where `Chooses` holds. -/
theorem decideSubAgentType_ne_nil_iff (settings : List FluffiSetting)
    (rows : List (List Char × ℕ+)) (type : AgentType) (implemented : List (List Char)) :
    (∃ subtype, decideSubAgentType settings rows type implemented = some subtype ∧
        subtype ≠ []) ↔
      ∃ desired, Percentages (entriesOf settings type) desired ∧
        Chooses desired (instanceNumbers rows) implemented := by
  constructor
  · rintro ⟨subtype, hdecide, hname⟩
    simp only [decideSubAgentType, Option.bind_eq_some_iff] at hdecide
    obtain ⟨desired, hdesired, hdecide⟩ := hdecide
    split_ifs at hdecide with hempty
    · exact absurd (Option.some.inj hdecide).symm hname
    · simp only [Option.bind_eq_some_iff, Option.map_eq_some_iff] at hdecide
      obtain ⟨normalized, hnormalized, instances, hinstances, current, hcurrent, diffs, hdiffs,
        rfl⟩ := hdecide
      have hactive := normalize_instances_eq_some.mp
        (Option.bind_eq_some_iff.mpr ⟨instances, hinstances, hcurrent⟩)
      obtain ⟨hfits, hnonzero, -⟩ := normalize_eq_some.mp hnormalized
      obtain ⟨hneeds, hneeded⟩ :=
        (subtypeDiffs_chosen hnormalized hactive.2 implemented).mp ⟨diffs, hdiffs, hname⟩
      exact ⟨desired, desiredSubTypes_eq_some.mp hdesired,
        ⟨hfits, hnonzero.resolve_left hempty, hactive.1, hneeds, hneeded⟩⟩
  · rintro ⟨desired, hpercentages, hchooses⟩
    have hempty : desired ≠ [] := by
      rintro rfl
      exact hchooses.total_ne_zero rfl
    have hrows : instanceNumbers rows = [] ∨ total (instanceNumbers rows) ≠ 0 := by
      by_cases h : rows = []
      · exact .inl (by rw [h]; rfl)
      · exact .inr (total_instanceNumbers_ne_zero h)
    have hnormalized := normalize_eq_some.mpr
      ⟨hchooses.desired_fits, .inr hchooses.total_ne_zero, rfl⟩
    have hcurrent := normalize_eq_some.mpr ⟨hchooses.active_fits, hrows, rfl⟩
    obtain ⟨instances, hinstances, hbound⟩ := Option.bind_eq_some_iff.mp
      (normalize_instances_eq_some.mpr ⟨hchooses.active_fits, hcurrent⟩)
    obtain ⟨diffs, hdiffs, hname⟩ := (subtypeDiffs_chosen hnormalized hcurrent implemented).mpr
      ⟨hchooses.needs_fit, hchooses.needed⟩
    refine ⟨_, ?_, hname⟩
    simp only [decideSubAgentType, Option.bind_eq_some_iff]
    refine ⟨desired, desiredSubTypes_eq_some.mpr hpercentages, ?_⟩
    rw [if_neg hempty]
    simp only [Option.bind_eq_some_iff, Option.map_eq_some_iff]
    exact ⟨_, hnormalized, instances, hinstances, _, hbound, diffs, hdiffs, rfl⟩

end Fluffi.LocalManager
