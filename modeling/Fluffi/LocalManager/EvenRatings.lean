import Fluffi.LocalManager.Turns
import Mathlib.Algebra.BigOperators.Group.List.Basic
import Mathlib.Algebra.Order.Group.Abs
import Mathlib.Algebra.Order.Ring.Int

/-! How far the ratings of two testcases can get apart. Only the testcase on top is handed out, so
what takes it behind another one is the batches that are under way at that moment: one for each
generator, and those whose reports are late. -/

namespace Fluffi.LocalManager

open Shared Systems

variable {G : Type*} [DecidableEq G]

namespace Scheduling

/-! ### Sizes of batches -/

/-- The sizes of the batches stay between one and the largest. -/
def Sized (s : Scheduling G) (bound : ℤ) : Prop :=
  ∀ g, 1 ≤ (s.fillers g).m_bulkGenerationSize ∧
    (s.fillers g).m_bulkGenerationSize ≤ (s.fillers g).m_maxBulkGenerationSize ∧
    (s.fillers g).m_maxBulkGenerationSize ≤ bound

omit [DecidableEq G] in
theorem adapt_sized {s : Scheduling G} {bound : ℤ} (h : s.Sized bound) (g : G)
    (outcome : BatchOutcome) :
    1 ≤ (s.fillers g).adapt outcome ∧
      (s.fillers g).adapt outcome ≤ (s.fillers g).m_maxBulkGenerationSize := by
  obtain ⟨hpos, hle, -⟩ := h g
  cases outcome with
  | threw =>
    simp only [QueueFiller.adapt]
    split <;> omega
  | children size accepts =>
    simp only [QueueFiller.adapt]
    split_ifs <;> omega

theorem sized_step {s s' : Scheduling G} {bound : ℤ} {e : SchedulingEvent G} (h : s.Sized bound)
    (hs : s.next e = some s') : s'.Sized bound := by
  have hfiller : ∀ (db : LMDatabase) (late : List LateReport) (g : G) (filler : QueueFiller),
      (1 ≤ filler.m_bulkGenerationSize ∧
        filler.m_bulkGenerationSize ≤ filler.m_maxBulkGenerationSize ∧
        filler.m_maxBulkGenerationSize ≤ bound) → Sized ⟨db, s.setFiller g filler, late⟩ bound := by
    intro db late g filler hsized g'
    simp only [setFiller]
    by_cases hg : g' = g
    · subst hg
      rwa [Function.update_self]
    · rw [Function.update_of_ne hg]
      exact h g'
  cases e with
  | getNewParent g row fileStored =>
    simp only [next, Option.ite_none_right_eq_some, Option.some.injEq] at hs
    obtain ⟨-, rfl⟩ := hs
    exact hfiller _ _ g _ (h g)
  | batchMutate g outcome =>
    simp only [next, Option.map_eq_some_iff] at hs
    obtain ⟨parentID, -, rfl⟩ := hs
    obtain ⟨hpos, hle⟩ := adapt_sized h g outcome
    exact hfiller _ _ g _ ⟨hpos, hle, (h g).2.2⟩
  | insert creator parent rating rawBytes type =>
    simp only [next, Option.map_eq_some_iff] at hs
    obtain ⟨db, -, rfl⟩ := hs
    exact h
  | lateReport accepts report =>
    simp only [next, Option.ite_none_right_eq_some, Option.some.injEq] at hs
    obtain ⟨-, rfl⟩ := hs
    exact h
  | addDelta | setType | delete =>
    simp only [next, Option.some.injEq] at hs
    subst hs
    exact h

/-! ### What is still to be taken off -/

/-- A generator gets no more children than it asks for, and ratings change by reports only. -/
def ReportsOnly (s : Scheduling G) : SchedulingEvent G → Prop
  | .batchMutate g (.children size _) => (size : ℤ) ≤ (s.fillers g).m_bulkGenerationSize
  | .addDelta _ _ delta => delta = 0
  | _ => True

instance (s : Scheduling G) (e : SchedulingEvent G) : Decidable (ReportsOnly s e) :=
  match e with
  | .batchMutate _ (.children _ _) => inferInstanceAs (Decidable ((_ : ℤ) ≤ _))
  | .addDelta _ _ delta => inferInstanceAs (Decidable (delta = 0))
  | .batchMutate _ .threw | .getNewParent _ _ _ | .lateReport _ _ | .insert _ _ _ _ _
  | .setType _ _ _ | .delete _ => .isTrue trivial

/-- What late reports say about a testcase. -/
def lateOn (late : List LateReport) (k : TestcaseKey) : ℕ :=
  (late.map fun report => if report.id.key = k then report.numOfNewMutationsInQueue else 0).sum

theorem lateOn_append (late late' : List LateReport) (k : TestcaseKey) :
    lateOn (late ++ late') k = lateOn late k + lateOn late' k := by
  rw [lateOn, List.map_append, List.sum_append]
  rfl

theorem lateOn_erase {late : List LateReport} {report : LateReport} (h : report ∈ late)
    (k : TestcaseKey) :
    lateOn late k = lateOn (late.erase report) k +
      if report.id.key = k then report.numOfNewMutationsInQueue else 0 := by
  have hperm := (List.perm_cons_erase h).map fun report =>
    if report.id.key = k then report.numOfNewMutationsInQueue else 0
  rw [lateOn, hperm.sum_eq, List.map_cons, List.sum_cons, Nat.add_comm]
  rfl

/-- The late reports are no larger than the largest batch. -/
def LateSized (s : Scheduling G) (bound : ℤ) : Prop :=
  ∀ report ∈ s.late, (report.numOfNewMutationsInQueue : ℤ) ≤ bound

theorem lateOn_le {late : List LateReport} {bound : ℤ} (hbound : 0 ≤ bound)
    (h : ∀ report ∈ late, (report.numOfNewMutationsInQueue : ℤ) ≤ bound) (k : TestcaseKey) :
    (lateOn late k : ℤ) ≤ bound * late.length := by
  induction late with
  | nil => simp [lateOn]
  | cons report late ih =>
    rw [List.forall_mem_cons] at h
    have hrest := ih h.2
    have hfirst := h.1
    have hsplit := lateOn_append [report] late k
    have hone : (lateOn [report] k : ℤ) ≤ bound := by
      simp only [lateOn, List.map_cons, List.map_nil, List.sum_cons, List.sum_nil, Nat.add_zero]
      split
      · exact hfirst
      · exact hbound
    rw [List.singleton_append] at hsplit
    rw [hsplit, List.length_cons]
    push_cast
    rw [mul_add, mul_one]
    omega

theorem lateOn_leaves (outcome : BatchOutcome) (parentID : FluffiTestcaseID) (k : TestcaseKey) :
    lateOn (outcome.leaves parentID) k = if parentID.key = k then
      lateOn (outcome.leaves parentID) parentID.key else 0 := by
  split_ifs with hkey
  · rw [hkey]
  · cases outcome with
    | threw => rfl
    | children size report =>
      cases report with
      | lost | inTime => rfl
      | late =>
        simp only [BatchOutcome.leaves]
        split
        · simp [lateOn, hkey]
        · rfl

omit [DecidableEq G] in
/-- A batch takes off no more than it asked for, at once or later. -/
theorem batchDelta_bounds {s : Scheduling G} {g : G} {outcome : BatchOutcome}
    (hpos : 1 ≤ (s.fillers g).m_bulkGenerationSize)
    (hreports : ReportsOnly s (.batchMutate g outcome)) (parentID : FluffiTestcaseID) :
    batchDelta outcome ≤ 0 ∧
      (lateOn (outcome.leaves parentID) parentID.key : ℤ) - batchDelta outcome ≤
        (s.fillers g).m_bulkGenerationSize := by
  cases outcome with
  | threw =>
    simp only [batchDelta, BatchOutcome.leaves, lateOn, List.map_nil, List.sum_nil]
    omega
  | children size report =>
    have hsize : (size : ℤ) ≤ (s.fillers g).m_bulkGenerationSize := hreports
    cases report with
    | lost =>
      simp only [batchDelta, BatchOutcome.leaves, lateOn, List.map_nil, List.sum_nil]
      omega
    | inTime accepts =>
      simp only [batchDelta, BatchOutcome.leaves, lateOn, List.map_nil, List.sum_nil, effective]
      split <;> omega
    | late =>
      simp only [batchDelta, BatchOutcome.leaves]
      split
      · simp only [lateOn, List.map_cons, List.map_nil, List.sum_cons, List.sum_nil, if_true]
        omega
      · simp only [lateOn, List.map_nil, List.sum_nil]
        omega

omit [DecidableEq G] in
theorem leaves_sized {s : Scheduling G} {g : G} {outcome : BatchOutcome}
    (hreports : ReportsOnly s (.batchMutate g outcome)) (parentID : FluffiTestcaseID) :
    ∀ report ∈ outcome.leaves parentID,
      (report.numOfNewMutationsInQueue : ℤ) ≤ (s.fillers g).m_bulkGenerationSize := by
  intro report hreport
  cases outcome with
  | threw => cases hreport
  | children size fate =>
    cases fate with
    | lost | inTime => cases hreport
    | late =>
      simp only [BatchOutcome.leaves] at hreport
      split at hreport
      · rw [List.mem_singleton.mp hreport]
        exact hreports
      · cases hreport

theorem lateSized_step {s s' : Scheduling G} {bound : ℤ} {e : SchedulingEvent G}
    (hsized : s.Sized bound) (h : s.LateSized bound) (hreports : ReportsOnly s e)
    (hs : s.next e = some s') : s'.LateSized bound := by
  cases e with
  | getNewParent g row fileStored =>
    simp only [next, Option.ite_none_right_eq_some, Option.some.injEq] at hs
    obtain ⟨-, rfl⟩ := hs
    exact h
  | batchMutate g outcome =>
    simp only [next, Option.map_eq_some_iff] at hs
    obtain ⟨parentID, -, rfl⟩ := hs
    intro report hreport
    cases List.mem_append.mp hreport with
    | inl hold => exact h report hold
    | inr hnew =>
      have hle := leaves_sized hreports parentID report hnew
      have := hsized g
      omega
  | lateReport accepts report =>
    simp only [next, Option.ite_none_right_eq_some, Option.some.injEq] at hs
    obtain ⟨-, rfl⟩ := hs
    exact fun other hother => h other (List.mem_of_mem_erase hother)
  | insert creator parent rating rawBytes type =>
    simp only [next, Option.map_eq_some_iff] at hs
    obtain ⟨db, -, rfl⟩ := hs
    exact h
  | addDelta | setType | delete =>
    simp only [next, Option.some.injEq] at hs
    subst hs
    exact h

/-- How far a testcase is behind another, when all that generators and late reports still may
take off is taken off. -/
def lag [Fintype G] (s : Scheduling G) (bound : ℤ) (p q : TestcaseKey) : ℤ :=
  ratingOf s.db q - ratingOf s.db p + bound * s.workingOn p + lateOn s.late p

/-! ### Evenness -/

section Evenness

variable [Fintype G]

/-- Only the testcase on top is handed out, so a testcase is never taken further behind than all
generators together and the late reports can take it. -/
theorem lag_step {s s' : Scheduling G} {bound limit : ℤ} {atOnce : ℕ} {p q : TestcaseKey}
    {e : SchedulingEvent G} (hp : InPopulation s.db p) (hq : InPopulation s.db q)
    (hsized : s.Sized bound) (hlate : s.LateSized bound) (hatOnce : s.late.length ≤ atOnce)
    (hlimit : bound * (Fintype.card G + atOnce) ≤ limit)
    (h : s.lag bound p q ≤ limit) (hspares : Spares p e ∧ Spares q e) (hreports : ReportsOnly s e)
    (hs : s.next e = some s') : s'.lag bound p q ≤ limit := by
  have hrp := (rating_step hp hspares.1 hs).2
  have hrq := (rating_step hq hspares.2 hs).2
  simp only [lag] at h ⊢
  rw [hrp, hrq]
  cases e with
  | getNewParent g row fileStored =>
    simp only [next, Option.ite_none_right_eq_some, Option.some.injEq] at hs
    obtain ⟨⟨hnone, hrow, htype, htop⟩, rfl⟩ := hs
    have hworking := workingOn_setFiller s s.db s.late g
      { s.fillers g with parentID := if fileStored then some row.id else none } p
    simp only [ratingChange, Int.add_zero]
    cases fileStored with
    | false =>
      simp only [hnone, Bool.false_eq_true, if_false, Option.map_none, reduceCtorEq, Nat.add_zero]
        at hworking
      simp only [Bool.false_eq_true, if_false, hworking]
      exact h
    | true =>
      have hkey : row.id.key = row.Creator := rfl
      simp only [hnone, if_true, Option.map_none, reduceCtorEq, if_false, Nat.add_zero,
        Option.map_some, Option.some.injEq, hkey] at hworking
      simp only [if_true, hworking]
      split
      case isFalse => rwa [Nat.add_zero]
      case isTrue hcreator =>
        obtain ⟨qrow, hqrow, hqcreator, hqtype⟩ := hq
        have hbehind := htop qrow hqrow hqtype
        rw [ratingOf_eq hrow hcreator, ratingOf_eq hqrow hqcreator]
        rw [if_pos hcreator] at hworking
        have hcard : s.workingOn p + 1 ≤ Fintype.card G := hworking ▸ workingOn_le _ p
        have hbound : 0 ≤ bound := by
          have := hsized g
          omega
        have hmul : bound * ((s.workingOn p + 1 : ℕ) : ℤ) ≤ bound * Fintype.card G :=
          mul_le_mul_of_nonneg_left (by exact_mod_cast hcard) hbound
        have hreports : (lateOn s.late p : ℤ) ≤ bound * atOnce :=
          (lateOn_le hbound hlate p).trans
            (mul_le_mul_of_nonneg_left (by exact_mod_cast hatOnce) hbound)
        rw [mul_add] at hlimit
        omega
  | batchMutate g outcome =>
    simp only [next, Option.map_eq_some_iff] at hs
    obtain ⟨parentID, hparent, rfl⟩ := hs
    set filler := { s.fillers g with
      m_bulkGenerationSize := (s.fillers g).adapt outcome
      parentID := none } with hfiller
    have hworking : (⟨reportNewMutations s.db parentID outcome, s.setFiller g filler,
        s.late ++ outcome.leaves parentID⟩ : Scheduling G).workingOn p +
          (if parentID.key = p then 1 else 0) = s.workingOn p := by
      have := workingOn_setFiller s (reportNewMutations s.db parentID outcome)
        (s.late ++ outcome.leaves parentID) g filler p
      simpa [hfiller, hparent] using this
    obtain ⟨hupper, hlower⟩ := batchDelta_bounds (hsized g).1 hreports parentID
    have hbound : (s.fillers g).m_bulkGenerationSize ≤ bound := by
      have := hsized g
      omega
    rw [← hworking] at h
    simp only [ratingChange, hparent, Option.map_some, Option.some.injEq, lateOn_append,
      lateOn_leaves outcome parentID p]
    push_cast at h ⊢
    rw [mul_add] at h
    by_cases hkp : parentID.key = p
    · by_cases hkq : parentID.key = q
      · simp only [if_pos hkp, if_pos hkq] at h ⊢
        omega
      · simp only [if_pos hkp, if_neg hkq] at h ⊢
        omega
    · by_cases hkq : parentID.key = q
      · simp only [if_neg hkp, if_pos hkq] at h ⊢
        omega
      · simp only [if_neg hkp, if_neg hkq] at h ⊢
        omega
  | lateReport accepts report =>
    simp only [next, Option.ite_none_right_eq_some, Option.some.injEq] at hs
    obtain ⟨hmem, rfl⟩ := hs
    have htaken : effective accepts (0 - (report.numOfNewMutationsInQueue : ℤ)) ≤ 0 ∧
        -(report.numOfNewMutationsInQueue : ℤ) ≤
          effective accepts (0 - report.numOfNewMutationsInQueue) := by
      simp only [effective]
      split <;> omega
    have hleft := lateOn_erase hmem p
    have hworking : workingOn { s with
        db := (addDeltaToTestcaseRating accepts s.db report.id
          (0 - report.numOfNewMutationsInQueue)).2
        late := s.late.erase report } p = s.workingOn p := rfl
    simp only [ratingChange, hworking]
    by_cases hkp : report.id.key = p
    · by_cases hkq : report.id.key = q
      · simp only [if_pos hkp, if_pos hkq] at hleft ⊢
        omega
      · simp only [if_pos hkp, if_neg hkq] at hleft ⊢
        omega
    · by_cases hkq : report.id.key = q
      · simp only [if_neg hkp, if_pos hkq] at hleft ⊢
        omega
      · simp only [if_neg hkp, if_neg hkq] at hleft ⊢
        omega
  | addDelta accepts parentid delta =>
    have hzero : delta = 0 := hreports
    simp only [next, Option.some.injEq] at hs
    subst hs
    simp only [ratingChange, effective, hzero, ite_self, Int.add_zero]
    exact h
  | insert creator parent rating rawBytes type =>
    simp only [next, Option.map_eq_some_iff] at hs
    obtain ⟨db, -, rfl⟩ := hs
    simp only [ratingChange, Int.add_zero]
    exact h
  | setType | delete =>
    simp only [next, Option.some.injEq] at hs
    subst hs
    simp only [ratingChange, Int.add_zero]
    exact h

variable {s u : Scheduling G} {tr : List (Scheduling G × SchedulingEvent G)}

/-- Mutations are spread evenly. While ratings change by reports only, and whether reports are
handled or not, in time or late, two testcases that stay in the population are never further
apart than they were or than a largest batch for each generator and each late report that is
under way at once. -/
theorem ratings_even {bound : ℤ} {atOnce : ℕ} {p q : TestcaseKey} (hr : Run next s tr u)
    (hp : InPopulation s.db p) (hq : InPopulation s.db q) (hsized : s.Sized bound)
    (hidle : ∀ g, (s.fillers g).parentID = none) (hlate : s.late = [])
    (hevents : ∀ x ∈ tr, (Spares p x.2 ∧ Spares q x.2) ∧ ReportsOnly x.1 x.2 ∧
      x.1.late.length ≤ atOnce) :
    u.Sized bound ∧
      |ratingOf u.db p - ratingOf u.db q| ≤
        max |ratingOf s.db p - ratingOf s.db q| (bound * (Fintype.card G + atOnce)) := by
  set limit := max |ratingOf s.db p - ratingOf s.db q| (bound * (Fintype.card G + atOnce))
    with hlimit
  have hworking : ∀ k, s.workingOn k = 0 := by
    intro k
    rw [workingOn, Finset.card_eq_zero]
    apply Finset.filter_eq_empty_iff.mpr
    intro g _
    simp [hidle g]
  have hstart : ∀ k k', |ratingOf s.db k' - ratingOf s.db k| ≤ limit →
      s.lag bound k k' ≤ limit := by
    intro k k' h
    rw [lag, hworking, hlate, Int.natCast_zero, mul_zero, Int.add_zero]
    exact (Int.add_zero _).trans_le ((le_abs_self _).trans h)
  have hpq : s.lag bound p q ≤ limit := hstart p q (by
    rw [abs_sub_comm]
    exact le_max_left _ _)
  have hqp : s.lag bound q p ≤ limit := hstart q p (le_max_left _ _)
  have hstep : ∀ {s e s'}, (Sized (G := G) s bound ∧ s.LateSized bound ∧ InPopulation s.db p ∧
      InPopulation s.db q ∧ s.lag bound p q ≤ limit ∧ s.lag bound q p ≤ limit) →
      ((Spares p e ∧ Spares q e) ∧ ReportsOnly s e ∧ s.late.length ≤ atOnce) →
      next s e = some s' → Sized s' bound ∧ s'.LateSized bound ∧ InPopulation s'.db p ∧
        InPopulation s'.db q ∧ s'.lag bound p q ≤ limit ∧ s'.lag bound q p ≤ limit := by
    rintro s e s' ⟨hsz, hls, hps, hqs, h₁, h₂⟩ ⟨⟨hsp, hsq⟩, hreports, honce⟩ hs
    exact ⟨sized_step hsz hs, lateSized_step hsz hls hreports hs, (rating_step hps hsp hs).1,
      (rating_step hqs hsq hs).1,
      lag_step hps hqs hsz hls honce (le_max_right _ _) h₁ ⟨hsp, hsq⟩ hreports hs,
      lag_step hqs hps hsz hls honce (le_max_right _ _) h₂ ⟨hsq, hsp⟩ hreports hs⟩
  have hnone : s.LateSized bound := by
    rw [LateSized, hlate]
    simp
  obtain ⟨⟨hsized', -, -, -, hpq', hqp'⟩, -⟩ :=
    hr.invariant_mem hevents ⟨hsized, hnone, hp, hq, hpq, hqp⟩ hstep
  refine ⟨hsized', abs_le.mpr ?_⟩
  have hnonneg : ∀ k, 0 ≤ bound * (u.workingOn k : ℤ) := by
    intro k
    rcases isEmpty_or_nonempty G with hempty | ⟨⟨g⟩⟩
    · have hnone : u.workingOn k = 0 := by
        have := workingOn_le u k
        rw [Fintype.card_eq_zero] at this
        omega
      rw [hnone, Int.natCast_zero, mul_zero]
    · have := hsized' g
      exact mul_nonneg (by omega) (Int.natCast_nonneg _)
  have := hnonneg p
  have := hnonneg q
  simp only [lag] at hpq' hqp'
  constructor <;> omega

/-- The first of two testcases is mutated twice, and its first report is handled last. -/
def lateEvents : List (SchedulingEvent Unit) :=
  [firstHandOut, .batchMutate () (.children 2 .late), firstHandOut, firstBatch,
    .lateReport (fun _ => true) ⟨⟨⟨"", "a"⟩, 1⟩, 2⟩]

theorem ratings_even_late : ∃ tr u, Run next oneGenerator tr u ∧ tr.length = 5 ∧
    ratingOf u.db ⟨"a", 1⟩ = 9997 ∧
      |ratingOf u.db ⟨"a", 1⟩ - ratingOf u.db ⟨"a", 2⟩| ≤
        max |ratingOf oneGenerator.db ⟨"a", 1⟩ - ratingOf oneGenerator.db ⟨"a", 2⟩|
          (50 * (1 + 1)) := by
  have hrun : (exec next oneGenerator lateEvents).any (fun r =>
      r.1.length = 5 && ratingOf r.2.db ⟨"a", 1⟩ = 9997 && r.1.all fun x =>
        (Spares ⟨"a", 1⟩ x.2 ∧ Spares ⟨"a", 2⟩ x.2) ∧ ReportsOnly x.1 x.2 ∧
          x.1.late.length ≤ 1) = true := by
    decide
  obtain ⟨⟨tr, u⟩, hexec, hrun⟩ := (Option.any_eq_true _ _).mp hrun
  simp only [Bool.and_eq_true, List.all_eq_true, decide_eq_true_eq] at hrun
  obtain ⟨⟨hlength, hrating⟩, hevents⟩ := hrun
  have hr := run_of_exec hexec
  refine ⟨tr, u, hr, hlength, hrating, ?_⟩
  refine (ratings_even hr inPopulation_two.1 inPopulation_two.2 ?_ ?_ rfl hevents).2
  · rintro ⟨⟩
    exact ⟨by decide, by decide, by decide⟩
  · exact fun _ => rfl

end Evenness

end Scheduling

end Fluffi.LocalManager
