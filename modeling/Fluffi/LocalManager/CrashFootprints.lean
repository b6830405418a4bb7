import Mathlib.Data.List.Pairwise
import Mathlib.Data.List.Perm.Basic
import Fluffi.LocalManager.Database

/-! At most so many testcases are kept of each crash footprint. The testcase that the others are
compared with is a row of a query that does not say in what order its rows come. Which footprints
are one is for the collation of their column to say. -/

namespace Fluffi.LocalManager

open Shared

/-- The database with the unique key of the table of crashes: a testcase has one footprint. -/
structure CrashDatabase extends LMDatabase where
  crash_unique : (crash_descriptions.map (·.CreatorTestcaseID)).Nodup

/-- How the database compares texts: they are the same if they weigh the same. In the collation that
comes with `utf8` upper and lower case do. -/
structure Collation where
  weights : String → List ℕ

def Collation.Same (c : Collation) (f g : String) : Prop := c.weights f = c.weights g

instance (c : Collation) (f g : String) : Decidable (c.Same f g) :=
  inferInstanceAs (Decidable (c.weights f = c.weights g))

/-- The orders in which rows come without an `ORDER BY`, and which of the same texts a `DISTINCT`
shows. -/
structure ResultOrder (c : Collation) where
  rows : String → List ℕ → List ℕ
  distinct : List String → List String
  rows_perm : ∀ footprint ids, (rows footprint ids).Perm ids
  distinct_pairwise : ∀ footprints, (distinct footprints).Pairwise fun f g => ¬ c.Same f g
  distinct_subset : ∀ footprints, distinct footprints ⊆ footprints
  exists_distinct : ∀ footprints, ∀ f ∈ footprints, ∃ g ∈ distinct footprints, c.Same g f

/-- A text as `std::string` makes it of a `char*`. -/
def untilZero (text : String) : String := String.ofList (text.toList.takeWhile (· ≠ '\x00'))

namespace CrashDatabase

variable {c : Collation}

/-- `interesting_testcases AS tc JOIN crash_descriptions AS cd ON tc.ID = cd.CreatorTestcaseID` -/
def joined (db : CrashDatabase) : List (InterestingTestcase × CrashDescription) :=
  db.interesting_testcases.flatMap fun tc =>
    (db.crash_descriptions.filter (·.CreatorTestcaseID = tc.ID)).map fun cd => (tc, cd)

/-- `DELETE FROM interesting_testcases`, with the cascade to the tables that refer to it. -/
def deleteWhere (db : CrashDatabase) (deleted : InterestingTestcase → Bool) : CrashDatabase where
  interesting_testcases := db.interesting_testcases.filter (!deleted ·)
  crash_descriptions := db.crash_descriptions.filter fun cd =>
    !db.interesting_testcases.any fun row => row.ID = cd.CreatorTestcaseID && deleted row
  covered_blocks := db.covered_blocks.filter fun block =>
    !db.interesting_testcases.any fun row => row.ID = block.CreatorTestcaseID && deleted row
  completed_testcases := db.completed_testcases
  nextID := db.nextID
  creator_unique := db.creator_unique.sublist (List.Sublist.map _ List.filter_sublist)
  id_unique := db.id_unique.sublist (List.Sublist.map _ List.filter_sublist)
  id_lt row hrow := db.id_lt row (List.mem_of_mem_filter hrow)
  crash_reference cd hcd := by
    obtain ⟨hcd, hkept⟩ := List.mem_filter.mp hcd
    obtain ⟨row, hrow, hid⟩ := db.crash_reference cd hcd
    refine ⟨row, List.mem_filter.mpr ⟨hrow, ?_⟩, hid⟩
    rw [Bool.not_eq_true', List.any_eq_false] at hkept
    simpa [hid] using hkept row hrow
  block_reference block hblock := by
    obtain ⟨hblock, hkept⟩ := Finset.mem_filter.mp hblock
    obtain ⟨row, hrow, hid⟩ := db.block_reference block hblock
    refine ⟨row, List.mem_filter.mpr ⟨hrow, ?_⟩, hid⟩
    rw [Bool.not_eq_true', List.any_eq_false] at hkept
    simpa [hid] using hkept row hrow
  crash_unique := db.crash_unique.sublist (List.Sublist.map _ List.filter_sublist)

/-- The IDs of the testcases with a footprint. -/
def idsOf (c : Collation) (db : CrashDatabase) (crashFootprint : String) : List ℕ :=
  (db.joined.filter (c.Same ·.2.CrashFootprint crashFootprint)).map (·.1.ID)

/-- The sub-query, with `LIMIT 1 OFFSET`. -/
def tclimit (order : ResultOrder c) (times : ℕ) (crashFootprint : String) (db : CrashDatabase) :
    Option ℕ :=
  (order.rows crashFootprint (db.idsOf c crashFootprint))[times - 1]?

def dropTestcaseIfCrashFootprintAppearedMoreThanXTimes (order : ResultOrder c) (times : ℕ)
    (crashFootprint : String) (db : CrashDatabase) : CrashDatabase :=
  match db.tclimit order times crashFootprint with
  | none => db
  | some tclimit => db.deleteWhere fun row => db.joined.any fun tc =>
      tc.1.ID = row.ID && (tclimit < tc.1.ID && c.Same tc.2.CrashFootprint crashFootprint)

/-- The list is made of `char*`. -/
def getAllCrashFootprints (order : ResultOrder c) (db : CrashDatabase) : List String :=
  (order.distinct (db.crash_descriptions.map (·.CrashFootprint))).map untilZero

/-- The statements of the loop. The rows of each sub-query come in an order of their own. -/
def statements (orders : ℕ → ResultOrder c) (footprints : List String) :
    List (ResultOrder c × String) :=
  footprints.zipIdx.map fun p => (orders p.2, p.1)

def execute (times : ℕ) (queries : List (ResultOrder c × String)) (db : CrashDatabase) :
    CrashDatabase :=
  queries.foldl (fun db q => db.dropTestcaseIfCrashFootprintAppearedMoreThanXTimes q.1 times q.2) db

def dropCrashesThatAppearedMoreThanXTimes (order : ResultOrder c) (orders : ℕ → ResultOrder c)
    (times : ℕ) (db : CrashDatabase) : CrashDatabase :=
  execute times (statements orders (db.getAllCrashFootprints order)) db

/-! ### What should hold -/

def HasFootprint (c : Collation) (db : CrashDatabase) (crashFootprint : String)
    (row : InterestingTestcase) : Prop :=
  ∃ cd ∈ db.crash_descriptions,
    cd.CreatorTestcaseID = row.ID ∧ c.Same cd.CrashFootprint crashFootprint

instance (db : CrashDatabase) (crashFootprint : String) :
    DecidablePred (db.HasFootprint c crashFootprint) := fun row =>
  inferInstanceAs (Decidable (∃ cd ∈ db.crash_descriptions,
    cd.CreatorTestcaseID = row.ID ∧ c.Same cd.CrashFootprint crashFootprint))

/-- How many testcases with a footprint are among the rows. -/
def count (c : Collation) (db : CrashDatabase) (crashFootprint : String)
    (rows : List InterestingTestcase) : ℕ :=
  (rows.filter (db.HasFootprint c crashFootprint ·)).length

/-- Of the testcases with the footprint so many are left, and all those without it. -/
structure Capped (c : Collation) (db db' : CrashDatabase) (times : ℕ) (crashFootprint : String) :
    Prop where
  sublist : db'.interesting_testcases.Sublist db.interesting_testcases
  left : db.count c crashFootprint db'.interesting_testcases =
    min times (db.count c crashFootprint db.interesting_testcases)
  others : ∀ row ∈ db.interesting_testcases, ¬ db.HasFootprint c crashFootprint row →
    row ∈ db'.interesting_testcases

structure AllCapped (c : Collation) (db db' : CrashDatabase) (times : ℕ) : Prop where
  sublist : db'.interesting_testcases.Sublist db.interesting_testcases
  left : ∀ crashFootprint, db.count c crashFootprint db'.interesting_testcases =
    min times (db.count c crashFootprint db.interesting_testcases)
  others : ∀ row ∈ db.interesting_testcases,
    (∀ crashFootprint, ¬ db.HasFootprint c crashFootprint row) → row ∈ db'.interesting_testcases

/-- The row at the offset has the ID that an `ORDER BY ID` would put there. -/
def InPlace (order : ResultOrder c) (times : ℕ) (db : CrashDatabase) (crashFootprint : String) :
    Prop :=
  ∀ tclimit, (order.rows crashFootprint (db.idsOf c crashFootprint))[times - 1]? = some tclimit →
    ((db.idsOf c crashFootprint).filter (· < tclimit)).length = times - 1

/-- The row at the offset has no smaller ID than that. -/
def NotBefore (order : ResultOrder c) (times : ℕ) (db : CrashDatabase) (crashFootprint : String) :
    Prop :=
  ∀ tclimit, (order.rows crashFootprint (db.idsOf c crashFootprint))[times - 1]? = some tclimit →
    times - 1 ≤ ((db.idsOf c crashFootprint).filter (· < tclimit)).length

/-- No footprint is cut when it is listed. -/
def ListedWhole (db : CrashDatabase) : Prop :=
  ∀ cd ∈ db.crash_descriptions, untilZero cd.CrashFootprint = cd.CrashFootprint

/-- The statements, with the database that each of them finds. -/
def executed (times : ℕ) : List (ResultOrder c × String) → CrashDatabase →
    List (CrashDatabase × ResultOrder c × String)
  | [], _ => []
  | q :: queries, db => (db, q) :: executed times queries
      (db.dropTestcaseIfCrashFootprintAppearedMoreThanXTimes q.1 times q.2)

/-- No statement takes a row before the one that belongs there, and for a footprint of more
testcases than should be left one of them takes that row. -/
structure EachInPlace (times : ℕ) (queries : List (ResultOrder c × String))
    (db : CrashDatabase) : Prop where
  notBefore : ∀ q ∈ executed times queries db, NotBefore q.2.1 times q.1 q.2.2
  inPlace : ∀ crashFootprint, times < db.count c crashFootprint db.interesting_testcases →
    ∃ q ∈ executed times queries db, c.Same q.2.2 crashFootprint ∧
      InPlace q.2.1 times q.1 q.2.2

/-! ### Rows and their footprints -/

variable {db : CrashDatabase} {order : ResultOrder c} {times : ℕ} {f g : String}
  {row : InterestingTestcase}

theorem hasFootprint_unique (hf : db.HasFootprint c f row) (hg : db.HasFootprint c g row) :
    c.Same f g := by
  obtain ⟨cd, hcd, hid, hf⟩ := hf
  obtain ⟨cd', hcd', hid', hg⟩ := hg
  obtain rfl := List.inj_on_of_nodup_map db.crash_unique hcd hcd' (hid.trans hid'.symm)
  exact hf.symm.trans hg

theorem hasFootprint_congr (h : c.Same f g) : db.HasFootprint c f row ↔ db.HasFootprint c g row :=
  exists_congr fun _ => and_congr_right fun _ => and_congr_right fun _ =>
    ⟨fun hf => hf.trans h, fun hg => hg.trans h.symm⟩

theorem count_congr (h : c.Same f g) (rows : List InterestingTestcase) :
    db.count c f rows = db.count c g rows := by
  simp only [count, hasFootprint_congr h]

theorem filter_key_cases {α κ : Type*} [DecidableEq κ] {key : α → κ} {l : List α}
    (h : (l.map key).Nodup) (k : κ) :
    l.filter (key · = k) = [] ∨ ∃ a, l.filter (key · = k) = [a] := by
  have hnodup : ((l.filter (key · = k)).map key).Nodup :=
    h.sublist (List.Sublist.map _ List.filter_sublist)
  have hkey : ∀ a ∈ l.filter (key · = k), key a = k := fun a ha => by
    simpa using List.of_mem_filter ha
  match l.filter (key · = k), hnodup, hkey with
  | [], _, _ => exact .inl rfl
  | [a], _, _ => exact .inr ⟨a, rfl⟩
  | a :: b :: rest, hnodup, hkey =>
    simp [hkey a (by simp), hkey b (by simp)] at hnodup

/-- In the join there is one row for each testcase with the footprint. -/
theorem idsOf_eq (c : Collation) (db : CrashDatabase) (f : String) :
    db.idsOf c f = (db.interesting_testcases.filter (db.HasFootprint c f ·)).map (·.ID) := by
  have hone : ∀ row : InterestingTestcase,
      (((db.crash_descriptions.filter (·.CreatorTestcaseID = row.ID)).map fun cd =>
        (row, cd)).filter (c.Same ·.2.CrashFootprint f)).map (·.1.ID) =
      if db.HasFootprint c f row then [row.ID] else [] := by
    intro row
    have hmem : ∀ cd, cd ∈ db.crash_descriptions.filter (·.CreatorTestcaseID = row.ID) ↔
        cd ∈ db.crash_descriptions ∧ cd.CreatorTestcaseID = row.ID := by simp
    rcases filter_key_cases db.crash_unique row.ID with hnone | ⟨cd, hcd⟩
    · rw [hnone, if_neg]
      · rfl
      · rintro ⟨cd, hcd, hid, -⟩
        exact List.not_mem_nil (hnone ▸ (hmem cd).mpr ⟨hcd, hid⟩)
    · rw [hcd] at hmem ⊢
      have hhas : db.HasFootprint c f row ↔ c.Same cd.CrashFootprint f := by
        constructor
        · rintro ⟨cd', hcd', hid, hfootprint⟩
          rwa [List.mem_singleton.mp ((hmem cd').mpr ⟨hcd', hid⟩)] at hfootprint
        · intro hfootprint
          obtain ⟨hcd, hid⟩ := (hmem cd).mp (List.mem_singleton_self cd)
          exact ⟨cd, hcd, hid, hfootprint⟩
      by_cases hfootprint : c.Same cd.CrashFootprint f <;> simp [hhas, hfootprint]
  rw [idsOf, joined]
  induction db.interesting_testcases with
  | nil => rfl
  | cons row rows ih =>
    rw [List.flatMap_cons, List.filter_append, List.map_append, ih, hone, List.filter_cons]
    by_cases hhas : db.HasFootprint c f row <;> simp [hhas]

theorem mem_joined_iff {tc : InterestingTestcase × CrashDescription} :
    tc ∈ db.joined ↔ tc.1 ∈ db.interesting_testcases ∧ tc.2 ∈ db.crash_descriptions ∧
      tc.2.CreatorTestcaseID = tc.1.ID := by
  obtain ⟨row, cd⟩ := tc
  simp [joined]

/-! ### One footprint -/

/-- Is the row behind the one that the others are compared with? -/
def behind (tclimit : Option ℕ) (id : ℕ) : Bool := tclimit.any (· < id)

/-- The rows that stay. -/
def keeps (order : ResultOrder c) (times : ℕ) (db : CrashDatabase) (f : String)
    (row : InterestingTestcase) : Bool :=
  !(db.HasFootprint c f row && behind (db.tclimit order times f) row.ID)

theorem keeps_of_other (h : ¬ db.HasFootprint c f row) : keeps order times db f row = true := by
  simp [keeps, h]

theorem any_joined (hrow : row ∈ db.interesting_testcases) (tclimit : ℕ) :
    (db.joined.any fun tc =>
      tc.1.ID = row.ID && (tclimit < tc.1.ID && c.Same tc.2.CrashFootprint f)) =
    (db.HasFootprint c f row && behind (some tclimit) row.ID) := by
  rw [Bool.eq_iff_iff, List.any_eq_true]
  simp only [mem_joined_iff, Bool.and_eq_true, decide_eq_true_eq, behind, Option.any_some]
  constructor
  · rintro ⟨⟨tc, cd⟩, ⟨htc, hcd, hcreator⟩, hid, hlimit, hfootprint⟩
    exact ⟨⟨cd, hcd, hcreator.trans hid, hfootprint⟩, hid ▸ hlimit⟩
  · rintro ⟨⟨cd, hcd, hcreator, hfootprint⟩, hlimit⟩
    exact ⟨⟨row, cd⟩, ⟨hrow, hcd, hcreator⟩, rfl, hlimit, hfootprint⟩

theorem drop_rows (order : ResultOrder c) (times : ℕ) (f : String) (db : CrashDatabase) :
    (db.dropTestcaseIfCrashFootprintAppearedMoreThanXTimes order times f).interesting_testcases =
      db.interesting_testcases.filter (keeps order times db f) := by
  unfold dropTestcaseIfCrashFootprintAppearedMoreThanXTimes keeps
  cases db.tclimit order times f with
  | none => simp [behind]
  | some tclimit =>
    exact List.filter_congr fun row hrow => congrArg not (any_joined hrow tclimit)

/-- The rows that stay keep their footprints. -/
theorem hasFootprint_drop (hrow : row ∈ db.interesting_testcases)
    (hkeeps : keeps order times db f row = true) :
    (db.dropTestcaseIfCrashFootprintAppearedMoreThanXTimes order times f).HasFootprint c g row ↔
      db.HasFootprint c g row := by
  unfold dropTestcaseIfCrashFootprintAppearedMoreThanXTimes
  unfold keeps at hkeeps
  cases htclimit : db.tclimit order times f with
  | none => rfl
  | some tclimit =>
    rw [htclimit, ← any_joined hrow, Bool.not_eq_true'] at hkeeps
    refine exists_congr fun cd => and_congr_left fun ⟨hid, _⟩ => ?_
    refine ⟨List.mem_of_mem_filter, fun hcd => List.mem_filter.mpr ⟨hcd, ?_⟩⟩
    rw [Bool.not_eq_true', List.any_eq_false]
    intro other hother hboth
    rw [Bool.and_eq_true, decide_eq_true_eq, hid] at hboth
    -- rows with one ID are one row
    obtain rfl := List.inj_on_of_nodup_map db.id_unique hother hrow hboth.1
    exact Bool.false_ne_true (hkeeps.symm.trans hboth.2)

end CrashDatabase

end Fluffi.LocalManager
