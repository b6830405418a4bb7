import Mathlib.Data.Finset.Lattice.Fold
import Mathlib.Data.Multiset.Count
import Mathlib.Order.Lattice.Nat
import Fluffi.Systems.Thinning
import Fluffi.LocalManager.Database

/-! The procedure that thins out the population. Two cursors run over the
population and compare the coverage of every two testcases. Of those with the
same coverage, the one with the lowest ID is to stay. -/

namespace Fluffi.LocalManager

open Systems

namespace LMDatabase

/-! ### Statements -/

/-- `UPDATE interesting_testcases SET TestCaseType = 5`, for the rows with these IDs. -/
def deactivate (db : LMDatabase) (ids : Finset ℕ) : LMDatabase :=
  let set := fun row : InterestingTestcase =>
    if row.ID ∈ ids then { row with TestCaseType := .Inactive_Population } else row
  have hid : ∀ row, (set row).ID = row.ID := fun row => by
    unfold set
    split <;> rfl
  have hcreator : ∀ row, (set row).Creator = row.Creator := fun row => by
    unfold set
    split <;> rfl
  have hreference : ∀ id, (∃ row ∈ db.interesting_testcases, row.ID = id) →
      ∃ row ∈ db.interesting_testcases.map set, row.ID = id := fun id ⟨row, hrow, h⟩ =>
    ⟨_, List.mem_map_of_mem hrow, (hid row).trans h⟩
  { interesting_testcases := db.interesting_testcases.map set
    crash_descriptions := db.crash_descriptions
    covered_blocks := db.covered_blocks
    completed_testcases := db.completed_testcases
    nextID := db.nextID
    creator_unique := by
      rw [List.map_map, show (fun row : InterestingTestcase => row.Creator) ∘ set =
        fun row => row.Creator from funext hcreator]
      exact db.creator_unique
    id_unique := by
      rw [List.map_map, show (fun row : InterestingTestcase => row.ID) ∘ set =
        fun row => row.ID from funext hid]
      exact db.id_unique
    id_lt := fun updated hupdated => by
      obtain ⟨row, hrow, rfl⟩ := List.mem_map.mp hupdated
      rw [hid]
      exact db.id_lt row hrow
    crash_reference := fun c hc => hreference _ (db.crash_reference c hc)
    block_reference := fun b hb => hreference _ (db.block_reference b hb) }

/-- `SELECT ID FROM interesting_testcases WHERE TestCaseType = 0` -/
def populationIDs (db : LMDatabase) : List ℕ :=
  (db.interesting_testcases.filter (·.TestCaseType = .Population)).map (·.ID)

/-- `FROM covered_blocks WHERE CreatorTestcaseID = c` -/
def blocksOf (db : LMDatabase) (c : ℕ) : Finset CoveredBlock :=
  db.covered_blocks.filter (·.CreatorTestcaseID = c)

/-- The values of `count(*)` that are left of the union of both testcases' pairs,
grouped by the pair, for the groups of one. -/
def countsOfOne (db : LMDatabase) (c c2 : ℕ) : Finset ℕ :=
  let merged := (db.blocksOf c).val.map (fun block => (block.Offset, block.ModuleID)) +
    (db.blocksOf c2).val.map (fun block => (block.Offset, block.ModuleID))
  (merged.toFinset.filter fun pair => merged.count pair = 1).image fun pair => merged.count pair

end LMDatabase

/-! ### The procedure -/

/-- What an `INT` holds of a count. -/
def toINT (n : ℕ) : ℕ := min n (2 ^ 31 - 1)

/-- `SELECT DISTINCT ... INTO t`: without a row the handler for `NOT FOUND` sets `done`. -/
def selectInto (rows : Finset ℕ) (t : ℕ) (done : Bool) : ℕ × Bool :=
  if rows = ∅ then (t, true) else (toINT (rows.sup id), done)

/-- The order in which a cursor that is opened yields its rows. No clause fixes it. -/
structure RowOrder where
  fetched : ℕ → List ℕ → List ℕ
  perm : ∀ opening ids, (fetched opening ids).Perm ids

/-- The statements for two testcases with `c2 > c`. -/
def compareTestcases (c c2 : ℕ) (db : LMDatabase) (done : Bool) : LMDatabase × Bool :=
  let t2 := toINT (db.blocksOf c).card
  let t3 := toINT (db.blocksOf c2).card
  if t2 > 0 ∧ t3 > 0 ∧ t2 = t3 then
    let (t, done) := selectInto (db.countsOfOne c c2) 42 done
    if t = 42 then (db.deactivate {c2}, done) else (db, done)
  else (db, done)

/-- `less_loop`, over the rows that `cur2` still has. A `FETCH` without a row sets `done`. -/
def lessLoop (c : ℕ) : List ℕ → LMDatabase → Bool → LMDatabase × Bool
  | [], db, _ => (db, true)
  | c2 :: rows, db, done =>
    if done then (db, done)
    else if c2 > c then lessLoop c rows (compareTestcases c c2 db done).1 false
    else lessLoop c rows db done

/-- `pop_loop`, over the rows that `cur1` still has; `opening` counts the cursors opened.
`e` is `NULL` where the setting is. -/
def popLoop (order : RowOrder) (e : Option Bool) : ℕ → List ℕ → LMDatabase → Bool → LMDatabase
  | _, [], db, _ => db
  | opening, c :: rows, db, done =>
    if done ∨ e = some false then db
    else
      let (db, _) := lessLoop c (order.fetched opening db.populationIDs) db done
      popLoop order e (opening + 1) rows db false

/-- `SELECT LCASE(SettingValue)="true" INTO e`, with `done` afterwards. -/
def selectSetting (settings : String → Option (Option String)) : Option Bool × Bool :=
  match settings "populationMinimization" with
  | some (some settingValue) =>
    (some (settingValue.toList.map Char.toLower == "true".toList), false)
  | some none => (none, false)
  | none => (some false, true)

def populationMinimization (settings : String → Option (Option String)) (order : RowOrder)
    (db : LMDatabase) : LMDatabase :=
  let (e, done) := selectSetting settings
  popLoop order e 1 (order.fetched 0 db.populationIDs) db done

/-! ### What the statements do -/

namespace LMDatabase

/-- The pairs of module and offset that a testcase covers. -/
def coverage (db : LMDatabase) (id : ℕ) : Finset (UInt64 × UInt8) :=
  (db.blocksOf id).image fun block => (block.Offset, block.ModuleID)

/-- A testcase stands for those that cover the same, if it covers anything. -/
def StandsFor (db : LMDatabase) (c c2 : ℕ) : Prop :=
  db.coverage c ≠ ∅ ∧ db.coverage c = db.coverage c2

instance (db : LMDatabase) : DecidableRel db.StandsFor :=
  fun _ _ => inferInstanceAs (Decidable (_ ∧ _))

def population (db : LMDatabase) : List InterestingTestcase :=
  db.interesting_testcases.filter (·.TestCaseType = .Population)

theorem deactivate_rows (db : LMDatabase) (ids : Finset ℕ) :
    (db.deactivate ids).interesting_testcases = db.interesting_testcases.map fun row =>
      if row.ID ∈ ids then { row with TestCaseType := .Inactive_Population } else row := rfl

@[simp] theorem coverage_deactivate (db : LMDatabase) (ids : Finset ℕ) :
    (db.deactivate ids).coverage = db.coverage := rfl

@[simp] theorem deactivate_empty (db : LMDatabase) : db.deactivate ∅ = db := by
  have hrows : (db.deactivate ∅).interesting_testcases = db.interesting_testcases := by
    simp [deactivate_rows]
  cases db
  simp only [deactivate, mk.injEq, and_true]
  exact hrows

theorem deactivate_deactivate (db : LMDatabase) (ids ids' : Finset ℕ) :
    (db.deactivate ids).deactivate ids' = db.deactivate (ids ∪ ids') := by
  have hrows : ((db.deactivate ids).deactivate ids').interesting_testcases =
      (db.deactivate (ids ∪ ids')).interesting_testcases := by
    rw [deactivate_rows, deactivate_rows, deactivate_rows, List.map_map]
    refine List.map_congr_left fun row _ => ?_
    by_cases h : row.ID ∈ ids
    · simp [h]
    · by_cases h' : row.ID ∈ ids'
      · simp [h, h']
      · simp [h, h']
  simp only [deactivate, mk.injEq, and_true]
  exact hrows

theorem population_deactivate (db : LMDatabase) (ids : Finset ℕ) :
    (db.deactivate ids).population = db.population.filter (·.ID ∉ ids) := by
  unfold population
  rw [deactivate_rows]
  generalize db.interesting_testcases = rows
  induction rows with
  | nil => rfl
  | cons row rows ih =>
    rw [List.map_cons]
    by_cases hid : row.ID ∈ ids
    · rw [if_pos hid, List.filter_cons_of_neg (by simp), ih]
      by_cases htype : row.TestCaseType = .Population
      · rw [List.filter_cons_of_pos (by simpa using htype),
          List.filter_cons_of_neg (by simpa using hid)]
      · rw [List.filter_cons_of_neg (by simpa using htype)]
    · rw [if_neg hid]
      by_cases htype : row.TestCaseType = .Population
      · rw [List.filter_cons_of_pos (by simpa using htype),
          List.filter_cons_of_pos (by simpa using htype),
          List.filter_cons_of_pos (by simpa using hid), ih]
      · rw [List.filter_cons_of_neg (by simpa using htype),
          List.filter_cons_of_neg (by simpa using htype), ih]

theorem mem_populationIDs {db : LMDatabase} {id : ℕ} :
    id ∈ db.populationIDs ↔ ∃ row ∈ db.population, row.ID = id :=
  List.mem_map

theorem mem_populationIDs_deactivate {db : LMDatabase} {ids : Finset ℕ} {id : ℕ} :
    id ∈ (db.deactivate ids).populationIDs ↔ id ∈ db.populationIDs ∧ id ∉ ids := by
  rw [mem_populationIDs, population_deactivate, mem_populationIDs]
  constructor
  · rintro ⟨row, hrow, rfl⟩
    obtain ⟨hrow, hid⟩ := List.mem_filter.mp hrow
    exact ⟨⟨row, hrow, rfl⟩, by simpa using hid⟩
  · rintro ⟨⟨row, hrow, rfl⟩, hid⟩
    exact ⟨row, List.mem_filter.mpr ⟨hrow, by simpa using hid⟩, rfl⟩

/-- The declared key makes the pairs of one testcase distinct rows. -/
theorem nodup_pairs (db : LMDatabase) (c : ℕ) :
    ((db.blocksOf c).val.map fun block => (block.Offset, block.ModuleID)).Nodup := by
  refine Multiset.Nodup.map_on ?_ (db.blocksOf c).nodup
  intro block hblock block' hblock' heq
  have hc : block.CreatorTestcaseID = c := (Finset.mem_filter.mp hblock).2
  have hc' : block'.CreatorTestcaseID = c := (Finset.mem_filter.mp hblock').2
  obtain ⟨hoffset, hmodule⟩ := Prod.mk.inj heq
  cases block
  cases block'
  simp_all

theorem mem_pairs {db : LMDatabase} {c : ℕ} {pair : UInt64 × UInt8} :
    pair ∈ (db.blocksOf c).val.map (fun block => (block.Offset, block.ModuleID)) ↔
      pair ∈ db.coverage c := by
  rw [coverage, Finset.mem_image, Multiset.mem_map]
  rfl

theorem count_pairs (db : LMDatabase) (c : ℕ) (pair : UInt64 × UInt8) :
    ((db.blocksOf c).val.map fun block => (block.Offset, block.ModuleID)).count pair =
      if pair ∈ db.coverage c then 1 else 0 := by
  rw [Multiset.count_eq_of_nodup (db.nodup_pairs c)]
  exact if_congr mem_pairs rfl rfl

theorem card_coverage (db : LMDatabase) (c : ℕ) :
    (db.coverage c).card = (db.blocksOf c).card := by
  unfold coverage
  rw [Finset.card_def, Finset.image_val, (db.nodup_pairs c).dedup, Multiset.card_map,
    Finset.card_def]

/-- The grouped query yields a row exactly where the two testcases cover different pairs. -/
theorem countsOfOne_eq_empty (db : LMDatabase) (c c2 : ℕ) :
    db.countsOfOne c c2 = ∅ ↔ db.coverage c = db.coverage c2 := by
  unfold countsOfOne
  simp only [Finset.image_eq_empty, Finset.filter_eq_empty_iff, Multiset.mem_toFinset,
    Multiset.mem_add, Multiset.count_add, count_pairs, mem_pairs]
  constructor
  · intro h
    ext pair
    constructor
    · intro hc
      by_contra hc2
      exact h (.inl hc) (by rw [if_pos hc, if_neg hc2])
    · intro hc2
      by_contra hc
      exact h (.inr hc2) (by rw [if_neg hc, if_pos hc2])
  · intro h pair _
    rw [h]
    split_ifs <;> omega

/-- No row of the grouped query is the 42 that stands for the equality. -/
theorem selectInto_countsOfOne (db : LMDatabase) (c c2 : ℕ) (done : Bool) :
    (selectInto (db.countsOfOne c c2) 42 done).1 = 42 ↔ db.coverage c = db.coverage c2 := by
  rw [← countsOfOne_eq_empty]
  unfold selectInto
  split_ifs with hrows
  · simp [hrows]
  · have hone : ∀ n ∈ db.countsOfOne c c2, n = 1 := by
      intro n hn
      obtain ⟨pair, hpair, rfl⟩ := Finset.mem_image.mp hn
      exact (Finset.mem_filter.mp hpair).2
    have hsup : (db.countsOfOne c c2).sup id ≤ 1 :=
      Finset.sup_le fun n hn => (hone n hn).le
    have hint : toINT ((db.countsOfOne c c2).sup id) ≤ 1 := (min_le_left _ _).trans hsup
    constructor
    · intro h
      omega
    · exact fun h => absurd h hrows

theorem toINT_card_pos (db : LMDatabase) (c : ℕ) :
    toINT (db.blocksOf c).card > 0 ↔ db.coverage c ≠ ∅ := by
  rw [← card_coverage, ne_eq, ← Finset.card_eq_zero]
  unfold toINT
  omega

/-- Whatever an `INT` holds of the counts, they are positive and equal for testcases of
the same coverage. -/
theorem compareTestcases_eq (c c2 : ℕ) (db : LMDatabase) (done : Bool) :
    (compareTestcases c c2 db done).1 = if db.StandsFor c c2 then db.deactivate {c2} else db := by
  unfold compareTestcases
  by_cases hstands : db.StandsFor c c2
  · obtain ⟨hc, heq⟩ := id hstands
    have hcounts : toINT (db.blocksOf c).card = toINT (db.blocksOf c2).card := by
      rw [← card_coverage, ← card_coverage, heq]
    rw [if_pos ⟨(db.toINT_card_pos c).mpr hc, (db.toINT_card_pos c2).mpr (heq ▸ hc), hcounts⟩,
      if_pos hstands]
    dsimp only
    rw [if_pos ((db.selectInto_countsOfOne c c2 done).mpr heq)]
  · rw [if_neg hstands]
    dsimp only
    split_ifs with hcounts ht
    · exact absurd ⟨(db.toINT_card_pos c).mp hcounts.1,
        (db.selectInto_countsOfOne c c2 done).mp ht⟩ hstands
    · rfl
    · rfl

/-! ### The loops -/

/-- One run of the inner cursor deactivates what the testcase stands for. -/
theorem lessLoop_eq (db : LMDatabase) (c : ℕ) (rows : List ℕ) (removed : Finset ℕ) :
    (lessLoop c rows (db.deactivate removed) false).1 =
      db.deactivate (removed ∪ (rows.filter fun x => c < x ∧ db.StandsFor c x).toFinset) := by
  induction rows generalizing removed with
  | nil => simp [lessLoop]
  | cons c2 rows ih =>
    rw [lessLoop, if_neg Bool.false_ne_true]
    by_cases hlt : c2 > c
    · have hcompare : (compareTestcases c c2 (db.deactivate removed) false).1 =
          if db.StandsFor c c2 then db.deactivate (removed ∪ {c2}) else db.deactivate removed := by
        rw [compareTestcases_eq, deactivate_deactivate]
        rfl
      rw [if_pos hlt, hcompare]
      by_cases hstands : db.StandsFor c c2
      · rw [if_pos hstands, ih, List.filter_cons_of_pos (by simp [hlt, hstands]),
          List.toFinset_cons, Finset.insert_eq, Finset.union_assoc]
      · rw [if_neg hstands, ih, List.filter_cons_of_neg (by simp [hstands])]
    · rw [if_neg hlt, ih, List.filter_cons_of_neg (by simp [hlt])]

/-- The outer cursor lets every testcase of its snapshot take its turn. -/
theorem popLoop_eq (db : LMDatabase) (order : RowOrder) (opening : ℕ) (rows : List ℕ)
    (removed : Finset ℕ) :
    popLoop order (some true) opening rows (db.deactivate removed) false =
      db.deactivate (thin db.StandsFor db.populationIDs.toFinset rows removed) := by
  induction rows generalizing opening removed with
  | nil => rfl
  | cons c rows ih =>
    have hfetched : ((order.fetched opening (db.deactivate removed).populationIDs).filter
          fun x => c < x ∧ db.StandsFor c x).toFinset =
        (db.populationIDs.toFinset \ removed).filter fun x => c < x ∧ db.StandsFor c x := by
      ext x
      simp [(order.perm opening _).mem_iff, mem_populationIDs_deactivate]
    rw [popLoop, if_neg (by simp)]
    dsimp only
    rw [lessLoop_eq, hfetched, ih, thin]

end LMDatabase

/-! ### Minimization -/

section Minimization

open LMDatabase

variable {settings : String → Option (Option String)}

theorem populationMinimization_eq
    (hset : settings "populationMinimization" = some (some "true")) (order : RowOrder)
    (db : LMDatabase) :
    populationMinimization settings order db =
      db.deactivate (superseded db.StandsFor db.populationIDs.toFinset) := by
  have hselect : selectSetting settings = (some true, false) := by
    unfold selectSetting
    rw [hset]
    decide
  have hrows : ∀ x, x ∈ order.fetched 0 db.populationIDs ↔ x ∈ db.populationIDs.toFinset := by
    intro x
    rw [(order.perm 0 _).mem_iff, List.mem_toFinset]
  have hloop := db.popLoop_eq order 1 (order.fetched 0 db.populationIDs) ∅
  rw [deactivate_empty, thin_eq_superseded _ hrows] at hloop
  unfold populationMinimization
  rw [hselect]
  exact hloop

/-- Another testcase of the population with the same coverage has a lower ID. -/
def IsDuplicate (db : LMDatabase) (row : InterestingTestcase) : Prop :=
  row.TestCaseType = .Population ∧ db.coverage row.ID ≠ ∅ ∧
    ∃ other ∈ db.population, db.coverage other.ID = db.coverage row.ID ∧ other.ID < row.ID

instance (db : LMDatabase) (row : InterestingTestcase) : Decidable (IsDuplicate db row) :=
  inferInstanceAs (Decidable (_ ∧ _ ∧ _))

theorem mem_population {db : LMDatabase} {row : InterestingTestcase} :
    row ∈ db.population ↔ row ∈ db.interesting_testcases ∧ row.TestCaseType = .Population := by
  simp [population]

theorem eq_of_id_eq {db : LMDatabase} {row row' : InterestingTestcase}
    (h : row ∈ db.interesting_testcases) (h' : row' ∈ db.interesting_testcases)
    (hid : row.ID = row'.ID) : row = row' :=
  List.inj_on_of_nodup_map db.id_unique h h' hid

theorem mem_superseded_iff {db : LMDatabase} {row : InterestingTestcase}
    (hrow : row ∈ db.interesting_testcases) :
    row.ID ∈ superseded db.StandsFor db.populationIDs.toFinset ↔ IsDuplicate db row := by
  rw [mem_superseded]
  simp only [List.mem_toFinset, mem_populationIDs]
  constructor
  · rintro ⟨⟨same, hsame, hid⟩, _, ⟨other, hother, rfl⟩, hlt, hne, heq⟩
    obtain ⟨hsame, htype⟩ := mem_population.mp hsame
    obtain rfl := eq_of_id_eq hsame hrow hid
    exact ⟨htype, heq ▸ hne, other, hother, heq, hlt⟩
  · rintro ⟨htype, hne, other, hother, heq, hlt⟩
    exact ⟨⟨row, mem_population.mpr ⟨hrow, htype⟩, rfl⟩, other.ID, ⟨other, hother, rfl⟩, hlt,
      heq ▸ hne, heq⟩

/-- The population after the procedure: what has no duplicate with a lower ID. -/
theorem mem_population_minimized {db : LMDatabase} {row : InterestingTestcase} :
    row ∈ (db.deactivate (superseded db.StandsFor db.populationIDs.toFinset)).population ↔
      row ∈ db.population ∧ ¬ IsDuplicate db row := by
  rw [population_deactivate, List.mem_filter, decide_eq_true_eq]
  refine and_congr_right fun hrow => not_congr (mem_superseded_iff (mem_population.mp hrow).1)

/-- Every testcase of the population with coverage has a representative that stays. -/
theorem exists_representative {db : LMDatabase} {row : InterestingTestcase}
    (hrow : row ∈ db.population) (hne : db.coverage row.ID ≠ ∅) :
    ∃ kept ∈ db.population, ¬ IsDuplicate db kept ∧
      db.coverage kept.ID = db.coverage row.ID ∧
      ∀ other ∈ db.population, db.coverage other.ID = db.coverage row.ID →
        kept.ID ≤ other.ID := by
  have hid : row.ID ∈ db.populationIDs.toFinset :=
    List.mem_toFinset.mpr (mem_populationIDs.mpr ⟨row, hrow, rfl⟩)
  have htrans {x y z : ℕ} (hxy : db.StandsFor x y) (hyz : db.StandsFor y z) :
      db.StandsFor x z := ⟨hxy.1, hxy.2.trans hyz.2⟩
  obtain ⟨id, hmem, hleft, -, hstands⟩ := exists_left db.StandsFor htrans hid ⟨hne, rfl⟩
  obtain ⟨kept, hkept, rfl⟩ := mem_populationIDs.mp (List.mem_toFinset.mp hmem)
  have hnot : ¬ IsDuplicate db kept := fun h =>
    hleft ((mem_superseded_iff (mem_population.mp hkept).1).mpr h)
  refine ⟨kept, hkept, hnot, hstands.2, fun other hother heq => ?_⟩
  by_contra hlt
  exact hnot ⟨(mem_population.mp hkept).2, hstands.1, other, hother, heq.trans hstands.2.symm,
    not_le.mp hlt⟩

/-- Of a class of equal coverage the lowest ID stays, and nothing else does. -/
theorem exists_only_left {db : LMDatabase} {row : InterestingTestcase}
    (hrow : row ∈ db.population) (hne : db.coverage row.ID ≠ ∅) :
    ∃ kept ∈ db.population, ¬ IsDuplicate db kept ∧
      db.coverage kept.ID = db.coverage row.ID ∧
      ∀ other ∈ db.population, db.coverage other.ID = db.coverage row.ID →
        kept.ID ≤ other.ID ∧ (¬ IsDuplicate db other → other = kept) := by
  obtain ⟨kept, hkept, hnot, heq, hleast⟩ := exists_representative hrow hne
  refine ⟨kept, hkept, hnot, heq, fun other hother hsame => ?_⟩
  refine ⟨hleast other hother hsame, fun hleft => ?_⟩
  refine eq_of_id_eq (mem_population.mp hother).1 (mem_population.mp hkept).1 ?_
  by_contra hid
  have hlt : kept.ID < other.ID := lt_of_le_of_ne (hleast other hother hsame) (Ne.symm hid)
  exact hleft ⟨(mem_population.mp hother).2, hsame ▸ hne, kept, hkept, heq.trans hsame.symm, hlt⟩

/-- A population that was thinned out has no duplicates left. -/
theorem superseded_deactivate (db : LMDatabase) :
    let db' := db.deactivate (superseded db.StandsFor db.populationIDs.toFinset)
    superseded db'.StandsFor db'.populationIDs.toFinset = ∅ := by
  intro db'
  have hids : db'.populationIDs.toFinset = db.populationIDs.toFinset \
      superseded db.StandsFor db.populationIDs.toFinset := by
    ext id
    simp [db', mem_populationIDs_deactivate]
  rw [hids]
  exact superseded_sdiff db.StandsFor _

/-- Whatever the order of the rows, the procedure deactivates of each class of equal coverage
all but the lowest ID, and nothing else changes. The population covers what it covered, and
a second run changes nothing. -/
theorem populationMinimization_spec (settings : String → Option (Option String))
    (hset : settings "populationMinimization" = some (some "true")) (order order' : RowOrder)
    (db : LMDatabase) :
    let db' := populationMinimization settings order db
    (db'.interesting_testcases = db.interesting_testcases.map (fun row =>
        if IsDuplicate db row then { row with TestCaseType := .Inactive_Population } else row) ∧
      db'.crash_descriptions = db.crash_descriptions ∧ db'.covered_blocks = db.covered_blocks ∧
      db'.completed_testcases = db.completed_testcases ∧ db'.nextID = db.nextID) ∧
    (∀ row ∈ db.population, db.coverage row.ID ≠ ∅ →
      ∃ kept ∈ db'.population, db.coverage kept.ID = db.coverage row.ID ∧
        ∀ other ∈ db.population, db.coverage other.ID = db.coverage row.ID →
          kept.ID ≤ other.ID ∧ (other ∈ db'.population → other = kept)) ∧
    (∀ row ∈ db.population, db.coverage row.ID = ∅ → row ∈ db'.population) ∧
    (∀ pair, (∃ row ∈ db'.population, pair ∈ db'.coverage row.ID) ↔
      ∃ row ∈ db.population, pair ∈ db.coverage row.ID) ∧
    populationMinimization settings order' db' = db' := by
  intro db'
  have hdb' : db' = db.deactivate (superseded db.StandsFor db.populationIDs.toFinset) :=
    populationMinimization_eq hset order db
  have hmem {row : InterestingTestcase} :
      row ∈ db'.population ↔ row ∈ db.population ∧ ¬ IsDuplicate db row := by
    rw [hdb', mem_population_minimized]
  have hcoverage : db'.coverage = db.coverage := by rw [hdb', coverage_deactivate]
  refine ⟨⟨?_, ?_⟩, ?_, ?_, ?_, ?_⟩
  · rw [hdb', deactivate_rows]
    exact List.map_congr_left fun row hrow => if_congr (mem_superseded_iff hrow) rfl rfl
  · rw [hdb']
    exact ⟨rfl, rfl, rfl, rfl⟩
  · intro row hrow hne
    obtain ⟨kept, hkept, hnot, heq, hclass⟩ := exists_only_left hrow hne
    refine ⟨kept, hmem.mpr ⟨hkept, hnot⟩, heq, fun other hother hsame => ?_⟩
    obtain ⟨hle, honly⟩ := hclass other hother hsame
    exact ⟨hle, fun hleft => honly (hmem.mp hleft).2⟩
  · exact fun row hrow hempty => hmem.mpr ⟨hrow, fun h => h.2.1 hempty⟩
  · intro pair
    rw [hcoverage]
    constructor
    · rintro ⟨row, hrow, hpair⟩
      exact ⟨row, (hmem.mp hrow).1, hpair⟩
    · rintro ⟨row, hrow, hpair⟩
      obtain ⟨kept, hkept, hnot, heq, -⟩ :=
        exists_representative hrow (Finset.ne_empty_of_mem hpair)
      exact ⟨kept, hmem.mpr ⟨hkept, hnot⟩, heq ▸ hpair⟩
  · have hnone : superseded db'.StandsFor db'.populationIDs.toFinset = ∅ := by
      rw [hdb']
      exact superseded_deactivate db
    rw [populationMinimization_eq hset, hnone, deactivate_empty]

/-- Three testcases of the population. The first and the second cover the same block. -/
def threeTestcases : LMDatabase where
  interesting_testcases := [⟨1, ⟨"g", 0⟩, ⟨"g", 0⟩, 10000, [], .Population⟩,
    ⟨2, ⟨"g", 1⟩, ⟨"g", 0⟩, 10000, [], .Population⟩,
    ⟨3, ⟨"g", 2⟩, ⟨"g", 0⟩, 10000, [], .Population⟩]
  crash_descriptions := []
  covered_blocks := {⟨1, 0, 16⟩, ⟨2, 0, 16⟩, ⟨3, 1, 16⟩}
  completed_testcases := 0
  nextID := 4
  creator_unique := by decide
  id_unique := by decide
  id_lt := by decide
  crash_reference := by decide
  block_reference := by decide

theorem populationMinimization_threeTestcases :
    (populationMinimization (fun _ => some (some "true"))
        ⟨fun _ ids => ids.reverse, fun _ ids => List.reverse_perm ids⟩
        threeTestcases).interesting_testcases.map (·.TestCaseType) =
      [.Population, .Inactive_Population, .Population] := by
  rw [(populationMinimization_spec (fun _ => some (some "true")) rfl _
    ⟨fun _ ids => ids, fun _ ids => List.Perm.refl ids⟩ threeTestcases).1.1]
  decide

end Minimization

end Fluffi.LocalManager
