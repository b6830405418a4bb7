import Mathlib.Data.List.TakeWhile
import Fluffi.LocalManager.Database

/-! The cache of completed testcases at the local manager. IDs are collected and
flushed to `completed_testcases` as a whole, when there are more than a hundred or
the last flush is too long ago. The bulk insert refuses the whole set when one GUID
does not fit its buffer, and ends each GUID at its first zero byte. Proved, for a
database that accepts the insert and as long as no flush meets such a GUID: no ID is
lost between cache and table, every call succeeds and the cache stays small. -/

namespace Fluffi.LocalManager

open Shared

/-- `maxGUIDLength` of the bulk insert. -/
def maxGUIDLength : ℕ := 50

/-- The GUID fits the buffer of the bulk insert. -/
def Fits (k : TestcaseKey) : Prop := k.guid.utf8ByteSize < maxGUIDLength

instance (k : TestcaseKey) : Decidable (Fits k) := inferInstanceAs (Decidable (_ < _))

/-- The row that the bulk insert makes: `strcpy_s` copies the GUID up to a zero byte. -/
def insertedRow (k : TestcaseKey) : TestcaseKey :=
  { k with guid := String.ofList (k.guid.toList.takeWhile (· ≠ '\x00')) }

/-- The GUID has no zero byte. -/
def Whole (k : TestcaseKey) : Prop := '\x00' ∉ k.guid.toList

instance (k : TestcaseKey) : Decidable (Whole k) := inferInstanceAs (Decidable (¬ _))

theorem whole_insertedRow (k : TestcaseKey) : Whole (insertedRow k) := by
  rw [Whole, insertedRow, String.toList_ofList]
  intro hmem
  simpa using List.mem_takeWhile_imp hmem

theorem insertedRow_eq_self {k : TestcaseKey} (h : Whole k) : insertedRow k = k := by
  have hall : k.guid.toList.takeWhile (· ≠ '\x00') = k.guid.toList := by
    rw [List.takeWhile_eq_self_iff]
    intro c hc
    have hne : c ≠ '\x00' := fun hzero => h (hzero ▸ hc)
    simpa using hne
  rw [insertedRow, hall, String.ofList_toList]

/-- The result and the database afterwards. -/
def addEntriesToCompletedTestcasesTable (accepts : Statement → Bool) (db : LMDatabase)
    (testcaseIDs : Finset TestcaseKey) : Bool × LMDatabase :=
  if ∃ k ∈ testcaseIDs, ¬ Fits k then (false, db)
  else if testcaseIDs.card = 0 then (true, db)
  else if accepts .insertCompleted then
    (true, db.insertCompleted (testcaseIDs.val.map insertedRow))
  else (false, db)

/-- The fields of `PutTestEvaluationRequestHandler` around its cache. -/
structure CompletedCache where
  m_completedTestcases_notYetPushedToDB : Finset TestcaseKey
  m_timeOfLastFlush : ℤ
  m_forceFlushAfterMS : ℤ

namespace CompletedCache

/-- The handler as constructed. -/
def new (now forceFlushAfterMS : ℤ) : CompletedCache := ⟨∅, now, forceFlushAfterMS⟩

/-- The condition of a flush once the ID is in the cache. -/
def FlushDue (c : CompletedCache) (now : ℤ) : Prop :=
  100 < c.m_completedTestcases_notYetPushedToDB.card ∨
    c.m_forceFlushAfterMS < now - c.m_timeOfLastFlush

instance (c : CompletedCache) (now : ℤ) : Decidable (c.FlushDue now) :=
  inferInstanceAs (Decidable (_ ∨ _))

def insertID (c : CompletedCache) (testcaseID : FluffiTestcaseID) : CompletedCache :=
  { c with m_completedTestcases_notYetPushedToDB :=
      insert testcaseID.key c.m_completedTestcases_notYetPushedToDB }

/-- The clock is read once for the condition and once after a successful flush. -/
def markTestcaseAsCompleted (accepts : Statement → Bool) (c : CompletedCache) (db : LMDatabase)
    (testcaseID : FluffiTestcaseID) (now nowAfterFlush : ℤ) : Bool × CompletedCache × LMDatabase :=
  let c := c.insertID testcaseID
  if c.FlushDue now then
    let (success, db) :=
      addEntriesToCompletedTestcasesTable accepts db c.m_completedTestcases_notYetPushedToDB
    if success then (true, ⟨∅, nowAfterFlush, c.m_forceFlushAfterMS⟩, db) else (false, c, db)
  else (true, c, db)

end CompletedCache

/-- What a call of `markTestcaseAsCompleted` does: the ID joins the cache, and then
nothing happens, or the cache moves to the table, or the flush fails. -/
theorem mark_cases (accepts : Statement → Bool) (c : CompletedCache) (db : LMDatabase)
    (testcaseID : FluffiTestcaseID) (now nowAfterFlush : ℤ) :
    (¬ (c.insertID testcaseID).FlushDue now ∧
      c.markTestcaseAsCompleted accepts db testcaseID now nowAfterFlush =
        (true, c.insertID testcaseID, db)) ∨
    ((c.insertID testcaseID).FlushDue now ∧
      (∀ k ∈ (c.insertID testcaseID).m_completedTestcases_notYetPushedToDB, Fits k) ∧
      accepts .insertCompleted = true ∧
      c.markTestcaseAsCompleted accepts db testcaseID now nowAfterFlush =
        (true, ⟨∅, nowAfterFlush, c.m_forceFlushAfterMS⟩, db.insertCompleted
          ((c.insertID testcaseID).m_completedTestcases_notYetPushedToDB.val.map insertedRow))) ∨
    ((c.insertID testcaseID).FlushDue now ∧
      ¬ ((∀ k ∈ (c.insertID testcaseID).m_completedTestcases_notYetPushedToDB, Fits k) ∧
        accepts .insertCompleted = true) ∧
      c.markTestcaseAsCompleted accepts db testcaseID now nowAfterFlush =
        (false, c.insertID testcaseID, db)) := by
  unfold CompletedCache.markTestcaseAsCompleted addEntriesToCompletedTestcasesTable
  have hne : (c.insertID testcaseID).m_completedTestcases_notYetPushedToDB.card ≠ 0 := by
    simp [CompletedCache.insertID]
  by_cases hdue : (c.insertID testcaseID).FlushDue now
  · by_cases hfit : ∀ k ∈ (c.insertID testcaseID).m_completedTestcases_notYetPushedToDB, Fits k
    · have hno : ¬ ∃ k ∈ (c.insertID testcaseID).m_completedTestcases_notYetPushedToDB,
          ¬ Fits k := by
        rintro ⟨k, hk, hunfit⟩
        exact hunfit (hfit k hk)
      by_cases haccepts : accepts .insertCompleted = true
      · refine .inr (.inl ⟨hdue, hfit, haccepts, ?_⟩)
        simp only [if_pos hdue, if_neg hno, if_neg hne, if_pos haccepts, if_true]
        rfl
      · refine .inr (.inr ⟨hdue, fun hboth => haccepts hboth.2, ?_⟩)
        simp only [if_pos hdue, if_neg hno, if_neg hne, if_neg haccepts]
        rfl
    · refine .inr (.inr ⟨hdue, fun hboth => hfit hboth.1, ?_⟩)
      have hex : ∃ k ∈ (c.insertID testcaseID).m_completedTestcases_notYetPushedToDB, ¬ Fits k := by
        by_contra hno
        exact hfit fun k hk => by_contra fun hunfit => hno ⟨k, hk, hunfit⟩
      simp only [if_pos hdue, if_pos hex]
      rfl
  · exact .inl ⟨hdue, by simp only [if_neg hdue]⟩

/-! ### Sequences of calls -/

structure MarkCall where
  testcaseID : FluffiTestcaseID
  now : ℤ
  nowAfterFlush : ℤ

def MarkCall.key (call : MarkCall) : TestcaseKey := call.testcaseID.key

/-- One call on a database that accepts every statement. -/
def MarkCall.apply (call : MarkCall) (s : CompletedCache × LMDatabase) :
    Bool × CompletedCache × LMDatabase :=
  s.1.markTestcaseAsCompleted (fun _ => true) s.2 call.testcaseID call.now call.nowAfterFlush

/-- Cache and database after a sequence of calls. -/
def afterCalls (s : CompletedCache × LMDatabase) (calls : List MarkCall) :
    CompletedCache × LMDatabase :=
  calls.foldl (fun s call => (call.apply s).2) s

/-- A flush that is due finds only GUIDs that are stored, and stored as they are. -/
def MarkCall.Sound (call : MarkCall) (c : CompletedCache) : Prop :=
  (c.insertID call.testcaseID).FlushDue call.now →
    ∀ k ∈ (c.insertID call.testcaseID).m_completedTestcases_notYetPushedToDB, Fits k ∧ Whole k

instance (call : MarkCall) (c : CompletedCache) : Decidable (call.Sound c) :=
  inferInstanceAs (Decidable (_ → _))

/-- Every call of the sequence finds the cache so. -/
def SoundCalls (s : CompletedCache × LMDatabase) (calls : List MarkCall) : Prop :=
  ∀ before call, before ++ [call] <+: calls → call.Sound (afterCalls s before).1

theorem SoundCalls.of_prefix {s : CompletedCache × LMDatabase} {calls before : List MarkCall}
    (h : SoundCalls s calls) (hbefore : before <+: calls) : SoundCalls s before :=
  fun before' call hcall => h before' call (hcall.trans hbefore)

theorem soundCalls_nil (s : CompletedCache × LMDatabase) : SoundCalls s [] := by
  intro before call h
  simp at h

theorem SoundCalls.cons {s : CompletedCache × LMDatabase} {calls : List MarkCall} {call : MarkCall}
    (hcall : call.Sound s.1) (h : SoundCalls (call.apply s).2 calls) :
    SoundCalls s (call :: calls) := by
  intro before last hlast
  cases before with
  | nil =>
    obtain ⟨rfl, -⟩ := List.cons_prefix_cons.mp hlast
    exact hcall
  | cons first before =>
    obtain ⟨rfl, hrest⟩ := List.cons_prefix_cons.mp hlast
    exact h before last hrest

/-- Between any two calls. -/
structure CacheInv (calls : List MarkCall) (c : CompletedCache) (db : LMDatabase) : Prop where
  kept : ∀ call ∈ calls, call.key ∈ c.m_completedTestcases_notYetPushedToDB ∨
    call.key ∈ db.completed_testcases
  small : c.m_completedTestcases_notYetPushedToDB.card ≤ 100

variable {calls before : List MarkCall} {c : CompletedCache} {db : LMDatabase} {call : MarkCall}

theorem mem_insertID {testcaseID : FluffiTestcaseID} {k : TestcaseKey} :
    k ∈ (c.insertID testcaseID).m_completedTestcases_notYetPushedToDB ↔
      k = testcaseID.key ∨ k ∈ c.m_completedTestcases_notYetPushedToDB :=
  Finset.mem_insert

/-- The ID of the next call is in the cache, and the others are where they were. -/
theorem CacheInv.insertID (h : CacheInv calls c db) (call : MarkCall) :
    ∀ call' ∈ calls ++ [call],
      call'.key ∈ (c.insertID call.testcaseID).m_completedTestcases_notYetPushedToDB ∨
        call'.key ∈ db.completed_testcases := by
  intro call' hcall
  rcases List.mem_append.mp hcall with hcall | hcall
  · rcases h.kept call' hcall with hk | hk
    · exact .inl (mem_insertID.mpr (.inr hk))
    · exact .inr hk
  · rw [List.mem_singleton.mp hcall]
    exact .inl (mem_insertID.mpr (.inl rfl))

theorem CacheInv.card_insertID (h : CacheInv calls c db) (testcaseID : FluffiTestcaseID) :
    (c.insertID testcaseID).m_completedTestcases_notYetPushedToDB.card ≤ 101 :=
  (Finset.card_insert_le _ _).trans (Nat.succ_le_succ h.small)

/-- What a sound call does: the ID joins the cache, or the cache becomes rows as it is. -/
theorem MarkCall.Sound.apply_cases (h : call.Sound c) (db : LMDatabase) :
    (¬ (c.insertID call.testcaseID).FlushDue call.now ∧
      call.apply (c, db) = (true, c.insertID call.testcaseID, db)) ∨
    call.apply (c, db) = (true, ⟨∅, call.nowAfterFlush, c.m_forceFlushAfterMS⟩,
      db.insertCompleted
        (c.insertID call.testcaseID).m_completedTestcases_notYetPushedToDB.val) := by
  rcases mark_cases (fun _ => true) c db call.testcaseID call.now call.nowAfterFlush with
    hquiet | ⟨hdue, -, -, heq⟩ | ⟨hdue, hno, -⟩
  · exact .inl hquiet
  · have hrows : (c.insertID call.testcaseID).m_completedTestcases_notYetPushedToDB.val.map
        insertedRow = (c.insertID call.testcaseID).m_completedTestcases_notYetPushedToDB.val :=
      (Multiset.map_congr rfl fun k hk => insertedRow_eq_self (h hdue k hk).2).trans
        (Multiset.map_id' _)
    rw [hrows] at heq
    exact .inr heq
  · exact absurd ⟨fun k hk => (h hdue k hk).1, rfl⟩ hno

theorem CacheInv.apply (h : CacheInv calls c db) (hsound : call.Sound c) :
    CacheInv (calls ++ [call]) (call.apply (c, db)).2.1 (call.apply (c, db)).2.2 := by
  rcases hsound.apply_cases db with ⟨hdue, heq⟩ | heq
  · rw [heq]
    exact ⟨h.insertID call, not_lt.mp fun hlt => hdue (.inl hlt)⟩
  · rw [heq]
    refine ⟨fun call' hcall => .inr ?_, by simp⟩
    show call'.key ∈ db.completed_testcases + _
    rw [Multiset.mem_add]
    exact (h.insertID call call' hcall).symm

theorem cacheInv_afterCalls (start forceFlushAfterMS : ℤ) (db : LMDatabase)
    (hsound : SoundCalls (.new start forceFlushAfterMS, db) calls) :
    CacheInv calls (afterCalls (.new start forceFlushAfterMS, db) calls).1
      (afterCalls (.new start forceFlushAfterMS, db) calls).2 := by
  induction calls using List.reverseRecOn with
  | nil => exact ⟨by simp, by simp [afterCalls, CompletedCache.new]⟩
  | append_singleton calls call ih =>
    rw [afterCalls, List.foldl_append]
    exact (ih (hsound.of_prefix (List.prefix_append calls [call]))).apply
      (hsound calls call List.prefix_rfl)

/-- After every call, each ID passed so far is in the cache or in the table, and what
left the cache is in the table. The cache holds at most 101 IDs even before a flush, and
every call succeeds. -/
theorem completed_cache (start forceFlushAfterMS : ℤ) (db : LMDatabase)
    (hsound : SoundCalls (.new start forceFlushAfterMS, db) calls)
    (hcall : before ++ [call] <+: calls) :
    let s := afterCalls (.new start forceFlushAfterMS, db) before
    let success := (call.apply s).1
    let after := (call.apply s).2
    (∀ call' ∈ before ++ [call], call'.key ∈ after.1.m_completedTestcases_notYetPushedToDB ∨
      call'.key ∈ after.2.completed_testcases) ∧
    (∀ k ∈ (s.1.insertID call.testcaseID).m_completedTestcases_notYetPushedToDB,
      k ∉ after.1.m_completedTestcases_notYetPushedToDB → k ∈ after.2.completed_testcases) ∧
    (s.1.insertID call.testcaseID).m_completedTestcases_notYetPushedToDB.card ≤ 101 ∧
    after.1.m_completedTestcases_notYetPushedToDB.card ≤ 101 ∧ success = true := by
  intro s success after
  have hs := cacheInv_afterCalls start forceFlushAfterMS db
    (hsound.of_prefix ((List.prefix_append before [call]).trans hcall))
  have hnext := hsound before call hcall
  have hafter := hs.apply hnext
  refine ⟨hafter.kept, ?_, hs.card_insertID _, hafter.small.trans (by decide), ?_⟩
  · intro k hk hgone
    rcases hnext.apply_cases s.2 with ⟨-, heq⟩ | heq
    · exact absurd (show k ∈ (call.apply s).2.1.m_completedTestcases_notYetPushedToDB by
        rw [heq]; exact hk) hgone
    · show k ∈ (call.apply s).2.2.completed_testcases
      rw [heq]
      exact Multiset.mem_add.mpr (.inr hk)
  · rcases hnext.apply_cases s.2 with ⟨-, heq⟩ | heq
    · exact congrArg Prod.fst heq
    · exact congrArg Prod.fst heq

/-- A GUID of fifty bytes. -/
def longGUID : FluffiServiceDescriptor :=
  ⟨"host:1", "01234567890123456789012345678901234567890123456789"⟩

/-- Two IDs, the second of which is flushed with the first, and then a GUID of fifty bytes. -/
def flushedCalls : List MarkCall :=
  [⟨⟨⟨"host:2", "guid"⟩, 1⟩, 1, 1⟩, ⟨⟨⟨"host:2", "guid"⟩, 2⟩, 20000, 20000⟩,
    ⟨⟨longGUID, 1⟩, 20001, 20001⟩]

theorem completed_cache_flushed :
    let s := afterCalls (.new 0 10000, .empty) (flushedCalls.take 2)
    (⟨"guid", 1⟩ : TestcaseKey) ∈ s.2.completed_testcases ∧
      ((⟨⟨longGUID, 1⟩, 20001, 20001⟩ : MarkCall).apply s).1 = true := by
  have hsound : SoundCalls (.new 0 10000, .empty) flushedCalls :=
    .cons (by decide) (.cons (by decide) (.cons (by decide) (soundCalls_nil _)))
  exact ⟨by decide, (completed_cache 0 10000 .empty hsound List.prefix_rfl).2.2.2.2⟩

/-- A GUID of fifty bytes, and a minute later one of four. -/
def poisonedCalls : List MarkCall :=
  [⟨⟨longGUID, 1⟩, 1, 1⟩, ⟨⟨⟨"host:2", "guid"⟩, 1⟩, 60000, 60000⟩]

/-- The second call fails, although its GUID fits and the database accepts every insert. -/
theorem poisoned_cache :
    ∃ call ∈ poisonedCalls, Fits call.key ∧
      (call.apply (afterCalls (.new 0 10000, .empty) (poisonedCalls.take 1))).1 = false := by
  refine ⟨⟨⟨⟨"host:2", "guid"⟩, 1⟩, 60000, 60000⟩, by simp [poisonedCalls], by decide, ?_⟩
  decide

/-- An ID whose GUID has a zero byte is neither in the cache nor in the table after a flush. -/
example :
    let s := afterCalls (.new 0 10000, .empty) [⟨⟨⟨"host:1", "gu\x00id"⟩, 1⟩, 60000, 60000⟩]
    (⟨"gu\x00id", 1⟩ : TestcaseKey) ∉ s.1.m_completedTestcases_notYetPushedToDB ∧
      (⟨"gu\x00id", 1⟩ : TestcaseKey) ∉ s.2.completed_testcases := by
  decide

end Fluffi.LocalManager
