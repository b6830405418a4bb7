import Fluffi.LocalManager.CrashFootprints

/-! How many testcases of a crash footprint are left. It is as many as should be exactly if the row
that the database returns at the offset has the ID that belongs there; for all footprints it comes
down to the rows that each statement of the loop finds. -/

namespace Fluffi.LocalManager

open Shared

namespace CrashDatabase

variable {c : Collation} {db : CrashDatabase} {order : ResultOrder c} {times : ℕ} {f g : String}
  {row : InterestingTestcase}

/-! ### How many are left -/

theorem length_filter_le (l : List ℕ) (a : ℕ) :
    (l.filter (· ≤ a)).length = (l.filter (· < a)).length + l.count a := by
  rw [← List.countP_eq_length_filter, ← List.countP_eq_length_filter]
  induction l with
  | nil => rfl
  | cons b l ih =>
    rw [List.countP_cons, List.countP_cons, List.count_cons, ih]
    rcases Nat.lt_trichotomy b a with hlt | rfl | hgt
    · simp [hlt, hlt.le, hlt.ne]
      omega
    · simp [Nat.add_assoc]
    · simp [hgt.le.not_gt, hgt.not_ge, hgt.ne']

theorem count_eq (c : Collation) (db : CrashDatabase) (f : String) :
    db.count c f db.interesting_testcases = (db.idsOf c f).length := by
  rw [idsOf_eq, List.length_map, count]

/-- Of the testcases with the footprint those that are not behind the limit are left. -/
theorem count_filter_keeps {p : InterestingTestcase → Bool}
    (hp : ∀ row, db.HasFootprint c f row → p row = keeps order times db f row) :
    db.count c f (db.interesting_testcases.filter p) =
      ((db.idsOf c f).filter (!behind (db.tclimit order times f) ·)).length := by
  rw [idsOf_eq, List.filter_map, List.length_map, List.filter_filter, count, List.filter_filter]
  congr 1
  refine List.filter_congr fun row _ => ?_
  by_cases hf : db.HasFootprint c f row
  · simp [hf, hp row hf, keeps]
  · simp [hf]

theorem idsOf_nodup (c : Collation) (db : CrashDatabase) (f : String) : (db.idsOf c f).Nodup := by
  rw [idsOf_eq]
  exact db.id_unique.sublist (List.Sublist.map _ List.filter_sublist)

/-- If there is a row at the offset, the testcases up to it are left. -/
theorem length_kept (hpos : 0 < times) {tclimit : ℕ}
    (htclimit : db.tclimit order times f = some tclimit) :
    times ≤ (db.idsOf c f).length ∧
      ((db.idsOf c f).filter (!behind (some tclimit) ·)).length =
        ((db.idsOf c f).filter (· < tclimit)).length + 1 := by
  have hperm := order.rows_perm f (db.idsOf c f)
  obtain ⟨hmany, -⟩ := List.getElem?_eq_some_iff.mp htclimit
  rw [hperm.length_eq] at hmany
  refine ⟨by omega, ?_⟩
  have hmem := hperm.mem_iff.mp (List.mem_of_getElem? htclimit)
  rw [← List.count_eq_one_of_mem (idsOf_nodup c db f) hmem, ← length_filter_le]
  congr 1
  refine List.filter_congr fun id _ => ?_
  rw [behind, Option.any_some, ← decide_not]
  exact decide_eq_decide.mpr Nat.not_lt

theorem length_lt_of_none (hpos : 0 < times) (htclimit : db.tclimit order times f = none) :
    (db.idsOf c f).length < times := by
  have hfew := List.getElem?_eq_none_iff.mp htclimit
  rw [(order.rows_perm f (db.idsOf c f)).length_eq] at hfew
  omega

theorem length_kept_iff (hpos : 0 < times) :
    ((db.idsOf c f).filter (!behind (db.tclimit order times f) ·)).length =
      min times (db.idsOf c f).length ↔ InPlace order times db f := by
  unfold InPlace
  cases htclimit : db.tclimit order times f with
  | none =>
    have hfew := length_lt_of_none hpos htclimit
    rw [tclimit] at htclimit
    rw [htclimit]
    refine iff_of_true ?_ (fun _ h => nomatch h)
    simp only [behind, Option.any_none, Bool.not_false, List.filter_true]
    omega
  | some a =>
    obtain ⟨hmany, hkept⟩ := length_kept hpos htclimit
    rw [tclimit] at htclimit
    rw [hkept, htclimit]
    simp only [Option.some.injEq, forall_eq']
    omega

theorem le_length_kept_iff (hpos : 0 < times) :
    min times (db.idsOf c f).length ≤
      ((db.idsOf c f).filter (!behind (db.tclimit order times f) ·)).length ↔
        NotBefore order times db f := by
  unfold NotBefore
  cases htclimit : db.tclimit order times f with
  | none =>
    rw [tclimit] at htclimit
    rw [htclimit]
    exact iff_of_true (by simp [behind]) (fun _ h => nomatch h)
  | some a =>
    obtain ⟨hmany, hkept⟩ := length_kept hpos htclimit
    rw [tclimit] at htclimit
    rw [hkept, htclimit]
    simp only [Option.some.injEq, forall_eq']
    omega

theorem capped_of_iff (hpos : 0 < times) :
    Capped c db (db.dropTestcaseIfCrashFootprintAppearedMoreThanXTimes order times f) times f ↔
      InPlace order times db f := by
  have hleft : db.count c f
      (db.dropTestcaseIfCrashFootprintAppearedMoreThanXTimes order times f).interesting_testcases =
        min times (db.count c f db.interesting_testcases) ↔ InPlace order times db f := by
    rw [drop_rows, count_filter_keeps fun _ _ => rfl, count_eq, length_kept_iff hpos]
  rw [← hleft]
  refine ⟨Capped.left, fun h => ⟨?_, h, fun row hrow hother => ?_⟩⟩
  · rw [drop_rows]
    exact List.filter_sublist
  · rw [drop_rows]
    exact List.mem_filter.mpr ⟨hrow, keeps_of_other hother⟩

/-! ### One statement after the other -/

/-- After a statement the rows have the footprints they had before. -/
theorem count_drop (g : String) {rows : List InterestingTestcase}
    (hrows : rows ⊆ (db.dropTestcaseIfCrashFootprintAppearedMoreThanXTimes order times
      f).interesting_testcases) :
    (db.dropTestcaseIfCrashFootprintAppearedMoreThanXTimes order times f).count c g rows =
      db.count c g rows := by
  unfold count
  congr 1
  refine List.filter_congr fun row hrow => ?_
  have hkept := hrows hrow
  rw [drop_rows] at hkept
  obtain ⟨hrow, hkeeps⟩ := List.mem_filter.mp hkept
  exact decide_eq_decide.mpr (hasFootprint_drop hrow hkeeps)

/-- The testcases of another footprint stay. -/
theorem idsOf_drop (hne : ¬ c.Same f g) :
    (db.dropTestcaseIfCrashFootprintAppearedMoreThanXTimes order times f).idsOf c g =
      db.idsOf c g := by
  rw [idsOf_eq, idsOf_eq, drop_rows, List.filter_filter]
  congr 1
  refine List.filter_congr fun row hrow => ?_
  cases hkeeps : keeps order times db f row with
  | true => simp [hasFootprint_drop hrow hkeeps]
  | false =>
    have hother : ¬ db.HasFootprint c g row := fun hg => by
      rw [keeps_of_other fun hf => hne (hasFootprint_unique hf hg)] at hkeeps
      cases hkeeps
    simp [hother]

/-- Testcases with another footprint stay, and those with this one do as far as they are kept. -/
theorem count_dropped (order : ResultOrder c) (times : ℕ) (db : CrashDatabase) (f g : String) :
    db.count c g
      (db.dropTestcaseIfCrashFootprintAppearedMoreThanXTimes order times f).interesting_testcases =
    if c.Same f g then ((db.idsOf c f).filter (!behind (db.tclimit order times f) ·)).length
    else db.count c g db.interesting_testcases := by
  split_ifs with hsame
  · rw [drop_rows, ← count_congr hsame, count_filter_keeps fun _ _ => rfl]
  · rw [← count_drop g (List.Subset.refl _), count_eq, idsOf_drop hsame, count_eq]

variable {queries : List (ResultOrder c × String)}

theorem execute_cons (times : ℕ) (q : ResultOrder c × String)
    (queries : List (ResultOrder c × String)) (db : CrashDatabase) :
    execute times (q :: queries) db = execute times queries
      (db.dropTestcaseIfCrashFootprintAppearedMoreThanXTimes q.1 times q.2) := rfl

/-- Rows only go, and no row without a footprint does. -/
theorem execute_rows (times : ℕ) (queries : List (ResultOrder c × String)) (db : CrashDatabase) :
    (execute times queries db).interesting_testcases.Sublist db.interesting_testcases ∧
      ∀ row ∈ db.interesting_testcases, (∀ f, ¬ db.HasFootprint c f row) →
        row ∈ (execute times queries db).interesting_testcases := by
  induction queries generalizing db with
  | nil => exact ⟨List.Sublist.refl _, fun _ hrow _ => hrow⟩
  | cons q queries ih =>
    obtain ⟨hsub, hothers⟩ :=
      ih (db.dropTestcaseIfCrashFootprintAppearedMoreThanXTimes q.1 times q.2)
    rw [drop_rows] at hsub hothers
    refine ⟨hsub.trans List.filter_sublist, fun row hrow hother => ?_⟩
    have hkeeps : keeps q.1 times db q.2 row = true := keeps_of_other (hother q.2)
    exact hothers row (List.mem_filter.mpr ⟨hrow, hkeeps⟩) fun g hg =>
      hother g ((hasFootprint_drop hrow hkeeps).mp hg)

theorem count_le_of_sublist (c : Collation) (f : String) (db : CrashDatabase)
    {rows rows' : List InterestingTestcase} (h : rows.Sublist rows') :
    db.count c f rows ≤ db.count c f rows' :=
  (h.filter _).length_le

/-- As many testcases of the footprint as should be are left if no statement goes below that
number, and one goes down to it where there are more. -/
theorem execute_count_iff (hpos : 0 < times) (f : String) (db : CrashDatabase) :
    db.count c f (execute times queries db).interesting_testcases =
        min times (db.count c f db.interesting_testcases) ↔
      (∀ q ∈ executed times queries db, c.Same q.2.2 f → NotBefore q.2.1 times q.1 q.2.2) ∧
        (times < db.count c f db.interesting_testcases →
          ∃ q ∈ executed times queries db, c.Same q.2.2 f ∧ InPlace q.2.1 times q.1 q.2.2) := by
  induction queries generalizing db with
  | nil =>
    simp only [execute, List.foldl_nil, executed, List.not_mem_nil, false_imp_iff, implies_true,
      false_and, exists_false, true_and, imp_false]
    omega
  | cons q queries ih =>
    have hlater := (execute_rows times queries
      (db.dropTestcaseIfCrashFootprintAppearedMoreThanXTimes q.1 times q.2)).1
    have hkept := count_dropped q.1 times db q.2 f
    have ih := ih (db.dropTestcaseIfCrashFootprintAppearedMoreThanXTimes q.1 times q.2)
    rw [count_drop f hlater.subset, count_drop f (List.Subset.refl _), hkept] at ih
    rw [execute_cons, executed, List.forall_mem_cons, List.exists_mem_cons_iff]
    by_cases hsame : c.Same q.2 f
    · -- the statement is about this footprint
      have hbefore := @le_length_kept_iff c db q.1 times q.2 hpos
      have hplace := @length_kept_iff c db q.1 times q.2 hpos
      have hmany := count_le_of_sublist c f db hlater
      have hfew := List.length_filter_le (!behind (db.tclimit q.1 times q.2) ·) (db.idsOf c q.2)
      rw [if_pos hsame] at ih hkept
      rw [hkept] at hmany
      rw [← count_eq, count_congr hsame] at hbefore hplace hfew
      constructor
      · intro hfinal
        obtain ⟨hnone, hone⟩ := ih.mp (by omega)
        refine ⟨⟨fun _ => hbefore.mp (by omega), hnone⟩, fun _ => ?_⟩
        by_cases hstill : times <
            ((db.idsOf c q.2).filter (!behind (db.tclimit q.1 times q.2) ·)).length
        · exact .inr (hone hstill)
        · exact .inl ⟨hsame, hplace.mp (by omega)⟩
      · rintro ⟨⟨hfirst, hnone⟩, hone⟩
        have hfirst := hbefore.mpr (hfirst hsame)
        have hfinal := ih.mpr ⟨hnone, fun hstill => by
          refine (hone (by omega)).resolve_left fun hq => ?_
          have := hplace.mpr hq.2
          omega⟩
        omega
    · rw [if_neg hsame] at ih
      rw [ih]
      simp only [hsame, false_imp_iff, true_and, false_and, false_or]

/-- All footprints are capped exactly if each row at the offset is the one that belongs there. -/
theorem allCapped_iff (hpos : 0 < times) :
    AllCapped c db (execute times queries db) times ↔ EachInPlace times queries db := by
  obtain ⟨hsub, hothers⟩ := execute_rows times queries db
  constructor
  · intro h
    constructor
    · exact fun q hq => ((execute_count_iff hpos q.2.2 db).mp (h.left q.2.2)).1 q hq rfl
    · exact fun f => ((execute_count_iff hpos f db).mp (h.left f)).2
  · intro h
    refine ⟨hsub, fun f => (execute_count_iff hpos f db).mpr ⟨?_, h.inPlace f⟩, hothers⟩
    exact fun q hq _ => h.notBefore q hq

/-! ### Footprints that are listed whole -/

/-- Statements about different footprints do not meet. -/
theorem executed_of_pairwise (times : ℕ)
    (hpairwise : queries.Pairwise fun q q' => ¬ c.Same q.2 q'.2) (db : CrashDatabase) :
    (executed times queries db).map Prod.snd = queries ∧
      ∀ q ∈ executed times queries db, q.1.idsOf c q.2.2 = db.idsOf c q.2.2 := by
  induction queries generalizing db with
  | nil => exact ⟨rfl, fun _ hq => nomatch hq⟩
  | cons q queries ih =>
    obtain ⟨hq, hpairwise⟩ := List.pairwise_cons.mp hpairwise
    obtain ⟨hmap, hlater⟩ :=
      ih hpairwise (db.dropTestcaseIfCrashFootprintAppearedMoreThanXTimes q.1 times q.2)
    refine ⟨by rw [executed, List.map_cons, hmap], ?_⟩
    rw [executed, List.forall_mem_cons]
    refine ⟨rfl, fun q' hq' => (hlater q' hq').trans (idsOf_drop ?_)⟩
    exact hq q'.2 (hmap ▸ List.mem_map_of_mem hq')

theorem notBefore_of_inPlace (h : InPlace order times db f) : NotBefore order times db f :=
  fun tclimit htclimit => (h tclimit htclimit).ge

/-- For a footprint of few testcases nothing more is asked. -/
theorem inPlace_of_notBefore (hpos : 0 < times) (h : NotBefore order times db f)
    (hfew : db.count c f db.interesting_testcases ≤ times) : InPlace order times db f := by
  have hle := (le_length_kept_iff hpos).mpr h
  have hkept := List.length_filter_le (!behind (db.tclimit order times f) ·) (db.idsOf c f)
  rw [count_eq] at hfew
  exact (length_kept_iff hpos).mp (by omega)

/-- If each footprint has one statement, its row is the one that belongs there. -/
theorem eachInPlace_iff_of_pairwise (hpos : 0 < times)
    (hpairwise : queries.Pairwise fun q q' => ¬ c.Same q.2 q'.2)
    (hlisted : ∀ row ∈ db.interesting_testcases, ∀ f, db.HasFootprint c f row →
      ∃ q ∈ queries, c.Same q.2 f) :
    EachInPlace times queries db ↔ ∀ q ∈ queries, InPlace q.1 times db q.2 := by
  have : Std.Symm fun q q' : ResultOrder c × String => ¬ c.Same q.2 q'.2 :=
    ⟨fun _ _ hne h => hne h.symm⟩
  obtain ⟨hmap, hids⟩ := executed_of_pairwise times hpairwise db
  have hexecuted : ∀ q ∈ queries, ∃ db', (db', q) ∈ executed times queries db := by
    intro q hq
    rw [← hmap] at hq
    obtain ⟨p, hp, rfl⟩ := List.mem_map.mp hq
    exact ⟨p.1, hp⟩
  constructor
  · intro h q hq
    by_cases hmany : times < db.count c q.2 db.interesting_testcases
    · obtain ⟨⟨db', q'⟩, hq', hsame, hplace⟩ := h.inPlace q.2 hmany
      have hmem : q' ∈ queries := hmap ▸ List.mem_map_of_mem hq'
      obtain rfl : q' = q := by
        by_contra hne
        exact hpairwise.forall hmem hq hne hsame
      rwa [InPlace, ← hids _ hq']
    · obtain ⟨db', hq'⟩ := hexecuted q hq
      refine inPlace_of_notBefore hpos ?_ (Nat.not_lt.mp hmany)
      rw [NotBefore, ← hids _ hq']
      exact h.notBefore _ hq'
  · intro h
    have hplace : ∀ q ∈ executed times queries db, InPlace q.2.1 times q.1 q.2.2 := by
      intro q hq
      rw [InPlace, hids q hq]
      exact h q.2 (hmap ▸ List.mem_map_of_mem hq)
    refine ⟨fun q hq => notBefore_of_inPlace (hplace q hq), fun f hmany => ?_⟩
    obtain ⟨row, hrow⟩ := List.exists_mem_of_length_pos (Nat.lt_of_le_of_lt times.zero_le hmany)
    obtain ⟨hrow, hf⟩ := List.mem_filter.mp hrow
    obtain ⟨q, hq, hsame⟩ := hlisted row hrow f (of_decide_eq_true hf)
    obtain ⟨db', hq'⟩ := hexecuted q hq
    exact ⟨(db', q), hq', hsame, hplace _ hq'⟩

theorem map_statements (orders : ℕ → ResultOrder c) (footprints : List String) :
    (statements orders footprints).map Prod.snd = footprints := by
  rw [statements, List.map_map]
  exact List.zipIdx_map_fst 0 footprints

/-- Each footprint of a testcase is listed once, as one that is the same. -/
theorem eachInPlace_of_listedWhole (hpos : 0 < times) (hwhole : db.ListedWhole)
    (order : ResultOrder c) (orders : ℕ → ResultOrder c) :
    EachInPlace times (statements orders (db.getAllCrashFootprints order)) db ↔
      ∀ q ∈ statements orders (db.getAllCrashFootprints order), InPlace q.1 times db q.2 := by
  have hlist : db.getAllCrashFootprints order =
      order.distinct (db.crash_descriptions.map (·.CrashFootprint)) := by
    refine (List.map_congr_left fun f hf => ?_).trans (List.map_id' _)
    obtain ⟨cd, hcd, rfl⟩ := List.mem_map.mp (order.distinct_subset _ hf)
    exact hwhole cd hcd
  rw [hlist]
  have hmap := map_statements orders (order.distinct (db.crash_descriptions.map (·.CrashFootprint)))
  refine eachInPlace_iff_of_pairwise hpos ?_ ?_
  · rw [← List.pairwise_map (f := Prod.snd) (R := fun f g => ¬ c.Same f g), hmap]
    exact order.distinct_pairwise _
  · rintro row - f ⟨cd, hcd, -, hf⟩
    obtain ⟨g, hg, hsame⟩ := order.exists_distinct _ _ (List.mem_map_of_mem hcd)
    rw [← hmap] at hg
    obtain ⟨q, hq, rfl⟩ := List.mem_map.mp hg
    exact ⟨q, hq, hsame.trans hf⟩

/-- As many testcases of a footprint are left as should be exactly if the row at the offset is the
one that belongs there. For all footprints each of the statements counts, and if they are listed
whole it is the same for each of them. -/
theorem capped_iff (db : CrashDatabase) (order : ResultOrder c) (orders : ℕ → ResultOrder c)
    (hpos : 0 < times) :
    (∀ crashFootprint, Capped c db
        (db.dropTestcaseIfCrashFootprintAppearedMoreThanXTimes order times crashFootprint) times
          crashFootprint ↔ InPlace order times db crashFootprint) ∧
      (AllCapped c db (db.dropCrashesThatAppearedMoreThanXTimes order orders times) times ↔
        EachInPlace times (statements orders (db.getAllCrashFootprints order)) db) ∧
      (db.ListedWhole →
        (EachInPlace times (statements orders (db.getAllCrashFootprints order)) db ↔
          ∀ q ∈ statements orders (db.getAllCrashFootprints order), InPlace q.1 times db q.2)) :=
  ⟨fun _ => capped_of_iff hpos, allCapped_iff hpos,
    fun hwhole => eachInPlace_of_listedWhole hpos hwhole order orders⟩

/-- Upper and lower case weigh the same. -/
def ignoringCase : Collation := ⟨fun text => text.toList.map fun char => char.toLower.toNat⟩

/-- The last of the same texts. -/
def lastOfSame (footprints : List String) : List String :=
  footprints.pwFilter fun f g => ¬ ignoringCase.Same f g

theorem exists_lastOfSame (footprints : List String) :
    ∀ f ∈ footprints, ∃ g ∈ lastOfSame footprints, ignoringCase.Same g f := by
  intro f hf
  by_contra hnone
  have htrans : ∀ {x y z}, ¬ ignoringCase.Same x z →
      ¬ ignoringCase.Same x y ∨ ¬ ignoringCase.Same y z := by
    intro x y z hxz
    by_contra hboth
    rw [not_or, not_not, not_not] at hboth
    exact hxz (hboth.1.trans hboth.2)
  have hdiffer : ∀ g ∈ lastOfSame footprints, ¬ ignoringCase.Same f g :=
    fun g hg hsame => hnone ⟨g, hg, hsame.symm⟩
  exact (@List.forall_mem_pwFilter _ (fun f g => ¬ ignoringCase.Same f g) _ htrans f
    footprints).mp hdiffer f hf rfl

/-- The rows come as they are in the table. -/
def tableOrder : ResultOrder ignoringCase :=
  ⟨fun _ ids => ids, lastOfSame, fun _ ids => List.Perm.refl ids,
    fun _ => List.pairwise_pwFilter _, fun _ => List.pwFilter_subset _, exists_lastOfSame⟩

/-- The newest rows come first. -/
def newestFirst : ResultOrder ignoringCase :=
  { tableOrder with
    rows := fun _ ids => ids.reverse
    rows_perm := fun _ ids => List.reverse_perm ids }

/-- Two crashes with one footprint. -/
def twoCrashes : CrashDatabase where
  interesting_testcases :=
    [⟨1, ⟨"b58f", 0⟩, ⟨"b58f", 0⟩, 0, [], .Exception_Other⟩,
      ⟨2, ⟨"b58f", 1⟩, ⟨"b58f", 0⟩, 0, [], .Exception_Other⟩]
  crash_descriptions := [⟨1, "A"⟩, ⟨2, "A"⟩]
  covered_blocks := ∅
  completed_testcases := 0
  nextID := 3
  creator_unique := by decide
  id_unique := by decide
  id_lt := by decide
  crash_reference := by decide
  block_reference := by simp
  crash_unique := by decide

/-- The footprint is asked for in lower case. -/
theorem capped_one : Capped ignoringCase twoCrashes
    (twoCrashes.dropTestcaseIfCrashFootprintAppearedMoreThanXTimes tableOrder 1 "a") 1 "a" := by
  have hcapped := capped_iff twoCrashes tableOrder (fun _ => tableOrder) Nat.one_pos
  refine (hcapped.1 "a").mpr fun tclimit h => ?_
  have hids : twoCrashes.idsOf ignoringCase "a" = [1, 2] := by decide
  obtain rfl : 1 = tclimit := by simpa [tableOrder, hids] using h
  rw [hids]
  rfl

/-- With the newest rows first none is behind the first one, and both are left. -/
theorem not_capped : ¬ ∀ (c : Collation) (db : CrashDatabase) (order : ResultOrder c) (times : ℕ),
    0 < times → ∀ crashFootprint, Capped c db
      (db.dropTestcaseIfCrashFootprintAppearedMoreThanXTimes order times crashFootprint) times
        crashFootprint := by
  intro h
  have hleft := (h ignoringCase twoCrashes newestFirst 1 Nat.one_pos "A").left
  exact absurd hleft (by decide)

end CrashDatabase

end Fluffi.LocalManager
