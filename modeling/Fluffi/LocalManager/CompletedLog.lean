import Fluffi.Systems.Run
import Fluffi.Shared.Identity

/-! The log of completed testcases at the local manager and the incremental poll
of a testcase generator. An insert takes its timestamp, in seconds, when its
statement starts and its rows become visible when it commits; any number of
inserts may be open. A poll asks for the rows from the newest timestamp of the
previous response on. Proved: a row whose commit is not behind that timestamp is
delivered by the first answered poll, and a row that commits behind it is skipped
by every answered poll while it stays. -/

namespace Fluffi.LocalManager

open Shared Systems

/-- A row of `completed_testcases`. -/
structure CompletedTestcase where
  Creator : TestcaseKey
  TimeOfCompletion : ℕ
  deriving DecidableEq, Repr

structure GetNewCompletedTestcaseIDsResponse where
  ids : List FluffiTestcaseID
  updateTimeStamp : ℕ
  deriving DecidableEq, Repr

/-- The host and port of the creator are unknown to the log. -/
def CompletedTestcase.id (r : CompletedTestcase) : FluffiTestcaseID :=
  ⟨⟨"", r.Creator.guid⟩, r.Creator.localID⟩

/-- One turn of the loop over the result rows on `latestTimeSTamp`. -/
def newerTimestamp (latestTimeSTamp : ℕ) (r : CompletedTestcase) : ℕ :=
  if latestTimeSTamp = 0 then r.TimeOfCompletion
  else if latestTimeSTamp < r.TimeOfCompletion then r.TimeOfCompletion
  else latestTimeSTamp

/-- `WHERE TimeOfCompletion >= ?` -/
def rowsSince (table : List CompletedTestcase) (lastUpdateTimeStamp : ℕ) :
    List CompletedTestcase :=
  table.filter (lastUpdateTimeStamp ≤ ·.TimeOfCompletion)

/-- `executed` is the result of the statement. When it fails the response keeps
its defaults. -/
def generateGetNewCompletedTestcaseIDsResponse (table : List CompletedTestcase)
    (lastUpdateTimeStamp : ℕ) (executed : Bool) : GetNewCompletedTestcaseIDsResponse :=
  if executed then
    let rows := rowsSince table lastUpdateTimeStamp
    ⟨rows.map CompletedTestcase.id, rows.foldl newerTimestamp 0⟩
  else ⟨[], 0⟩

theorem newerTimestamp_eq_max (latest : ℕ) (r : CompletedTestcase) :
    newerTimestamp latest r = max latest r.TimeOfCompletion := by
  unfold newerTimestamp
  split_ifs <;> omega

/-- The loop computes the newest timestamp. -/
theorem le_foldl_newerTimestamp (rows : List CompletedTestcase) (latest : ℕ) :
    latest ≤ rows.foldl newerTimestamp latest ∧
      ∀ r ∈ rows, r.TimeOfCompletion ≤ rows.foldl newerTimestamp latest := by
  induction rows generalizing latest with
  | nil => simp
  | cons r rows ih =>
    obtain ⟨hle, hrows⟩ := ih (newerTimestamp latest r)
    rw [newerTimestamp_eq_max] at hle hrows
    simp only [List.foldl_cons, newerTimestamp_eq_max, List.mem_cons, forall_eq_or_imp]
    exact ⟨(le_max_left _ _).trans hle, (le_max_right _ _).trans hle, hrows⟩

/-- The newest timestamp is that of a row, or of none. -/
theorem foldl_newerTimestamp_mem (rows : List CompletedTestcase) (latest : ℕ) :
    rows.foldl newerTimestamp latest = latest ∨
      ∃ r ∈ rows, rows.foldl newerTimestamp latest = r.TimeOfCompletion := by
  induction rows generalizing latest with
  | nil => exact .inl rfl
  | cons r rows ih =>
    rw [List.foldl_cons, newerTimestamp_eq_max]
    rcases ih (max latest r.TimeOfCompletion) with h | ⟨q, hq, h⟩
    · rcases max_choice latest r.TimeOfCompletion with hm | hm
      · exact .inl (h.trans hm)
      · exact .inr ⟨r, List.mem_cons_self, h.trans hm⟩
    · exact .inr ⟨q, List.mem_cons_of_mem r hq, h⟩

/-! ### The log under concurrent inserts -/

/-- An `INSERT` statement that has started. All its rows carry the timestamp of
its start. -/
structure OpenInsert where
  keys : List TestcaseKey
  TimeOfCompletion : ℕ
  deriving DecidableEq, Repr

def OpenInsert.rows (o : OpenInsert) : List CompletedTestcase :=
  o.keys.map (⟨·, o.TimeOfCompletion⟩)

inductive PollOutcome
  /-- `sendReqAndRecvResp` fails. -/
  | lost
  /-- The statement at the local manager fails. -/
  | refused
  | answered
  deriving DecidableEq, Repr

structure CompletionLog where
  clock : ℕ
  openInserts : List OpenInsert
  completed_testcases : List CompletedTestcase
  /-- At the generator. -/
  m_serverTimestampOfNewestEvaluationResult : ℕ
  deriving DecidableEq, Repr

inductive LogEvent
  | tick (seconds : ℕ)
  /-- A single-row insert or a bulk insert starts. -/
  | startInsert (keys : List TestcaseKey)
  | commit (i : ℕ)
  | rollback (i : ℕ)
  /-- `cleanCompletedTestcasesTableOlderThanXSec` -/
  | clean (olderThanInSeconds : ℕ)
  | poll (outcome : PollOutcome)
  deriving DecidableEq, Repr

namespace CompletionLog

def init : CompletionLog := ⟨0, [], [], 0⟩

/-- What the generator receives: `none` when the request fails. -/
def response (s : CompletionLog) : PollOutcome → Option GetNewCompletedTestcaseIDsResponse
  | .lost => none
  | .refused => some (generateGetNewCompletedTestcaseIDsResponse s.completed_testcases
      s.m_serverTimestampOfNewestEvaluationResult false)
  | .answered => some (generateGetNewCompletedTestcaseIDsResponse s.completed_testcases
      s.m_serverTimestampOfNewestEvaluationResult true)

def next (s : CompletionLog) : LogEvent → Option CompletionLog
  | .tick seconds => some { s with clock := s.clock + seconds }
  | .startInsert keys => some { s with openInserts := s.openInserts ++ [⟨keys, s.clock⟩] }
  | .commit i =>
    match s.openInserts[i]? with
    | some o => some { s with
        openInserts := s.openInserts.eraseIdx i
        completed_testcases := s.completed_testcases ++ o.rows }
    | none => none
  | .rollback i => some { s with openInserts := s.openInserts.eraseIdx i }
  | .clean olderThanInSeconds => some { s with
      completed_testcases := s.completed_testcases.filter
        fun r => !decide (r.TimeOfCompletion + olderThanInSeconds < s.clock) }
  | .poll outcome =>
    match s.response outcome with
    | some resp => some { s with m_serverTimestampOfNewestEvaluationResult := resp.updateTimeStamp }
    | none => some s

end CompletionLog

open CompletionLog

/-- The rows a step delivers to the generator. -/
def deliveredRows : CompletionLog × LogEvent → List CompletedTestcase
  | (s, .poll .answered) =>
    rowsSince s.completed_testcases s.m_serverTimestampOfNewestEvaluationResult
  | _ => []

variable {s t u : CompletionLog} {e : LogEvent} {r : CompletedTestcase}
  {pre post : List (CompletionLog × LogEvent)}

/-- The IDs of a response are those of the delivered rows. -/
theorem response_ids (s : CompletionLog) (outcome : PollOutcome) :
    ((s.response outcome).map (·.ids)).getD [] =
      (deliveredRows (s, .poll outcome)).map CompletedTestcase.id := by
  cases outcome <;> rfl

/-- Only an answered poll can move the cursor of the generator forward. -/
theorem cursor_next (he : e ≠ .poll .answered) (hs : s.next e = some t) :
    t.m_serverTimestampOfNewestEvaluationResult = s.m_serverTimestampOfNewestEvaluationResult ∨
      (e = .poll .refused ∧ t.m_serverTimestampOfNewestEvaluationResult = 0) := by
  cases e with
  | commit i =>
    simp only [next] at hs
    split at hs
    · exact .inl (by rw [← Option.some.inj hs])
    · cases hs
  | poll outcome =>
    cases outcome with
    | lost => exact .inl (by rw [← Option.some.inj hs])
    | refused => exact .inr ⟨rfl, by rw [← Option.some.inj hs]; rfl⟩
    | answered => exact absurd rfl he
  | _ => exact .inl (by rw [← Option.some.inj hs])

theorem mem_deliveredRows (hr : r ∈ s.completed_testcases)
    (hc : s.m_serverTimestampOfNewestEvaluationResult ≤ r.TimeOfCompletion) :
    r ∈ deliveredRows (s, .poll .answered) :=
  List.mem_filter.mpr ⟨hr, by simpa using hc⟩

/-- A row ahead of the cursor is delivered by the first answered poll it lives to see. -/
theorem delivered_of_ahead (hrun : Run CompletionLog.next s post u)
    (hc : s.m_serverTimestampOfNewestEvaluationResult ≤ r.TimeOfCompletion)
    (hstays : ∀ p ∈ post, r ∈ p.1.completed_testcases)
    (hpoll : ∃ p ∈ post, p.2 = .poll .answered) : ∃ p ∈ post, r ∈ deliveredRows p := by
  induction post generalizing s with
  | nil => simp at hpoll
  | cons p post ih =>
    obtain ⟨hp, t, hs, hrest⟩ := hrun.cons_inv
    have hr : r ∈ p.1.completed_testcases := hstays p List.mem_cons_self
    by_cases he : p.2 = .poll .answered
    · refine ⟨p, List.mem_cons_self, ?_⟩
      have hpair : p = (s, .poll .answered) := Prod.ext hp he
      exact hpair ▸ mem_deliveredRows (hp ▸ hr) hc
    · have hc' : t.m_serverTimestampOfNewestEvaluationResult ≤ r.TimeOfCompletion := by
        rcases cursor_next he hs with h | ⟨_, h⟩ <;> omega
      obtain ⟨q, hq, hqe⟩ := hpoll
      have hq' : q ∈ post := by
        rcases List.mem_cons.mp hq with rfl | hq
        · exact absurd hqe he
        · exact hq
      obtain ⟨w, hw, hd⟩ := ih hrest hc' (fun x hx => hstays x (List.mem_cons_of_mem p hx))
        ⟨q, hq', hqe⟩
      exact ⟨w, List.mem_cons_of_mem p hw, hd⟩

/-- `r` is behind the cursor, and the log holds a row the cursor does not pass. -/
def Skipped (r : CompletedTestcase) (s : CompletionLog) : Prop :=
  r.TimeOfCompletion < s.m_serverTimestampOfNewestEvaluationResult ∧
    ∃ q ∈ s.completed_testcases,
      s.m_serverTimestampOfNewestEvaluationResult ≤ q.TimeOfCompletion

theorem not_delivered_of_skipped (h : Skipped r s) (e : LogEvent) : r ∉ deliveredRows (s, e) := by
  intro hd
  unfold deliveredRows at hd
  split at hd
  next heq =>
    obtain ⟨rfl, _⟩ := Prod.mk.inj heq
    have hle := List.of_mem_filter hd
    have := h.1
    simp only [decide_eq_true_eq] at hle
    omega
  next => cases hd

/-- The cleanup takes old rows first, so while `r` stays it stays skipped. -/
theorem Skipped.next (h : Skipped r s) (he : e ≠ .poll .refused) (hs : s.next e = some t)
    (hr : r ∈ t.completed_testcases) : Skipped r t := by
  obtain ⟨hlt, q, hq, hle⟩ := h
  cases e with
  | commit i =>
    simp only [CompletionLog.next] at hs
    split at hs
    · rw [← Option.some.inj hs]
      exact ⟨hlt, q, List.mem_append_left _ hq, hle⟩
    · cases hs
  | clean olderThan =>
    obtain rfl := Option.some.inj hs
    have hkept := List.of_mem_filter hr
    refine ⟨hlt, q, List.mem_filter.mpr ⟨hq, ?_⟩, hle⟩
    simp only [Bool.not_eq_true', decide_eq_false_iff_not] at hkept ⊢
    omega
  | poll outcome =>
    cases outcome with
    | lost => obtain rfl := Option.some.inj hs; exact ⟨hlt, q, hq, hle⟩
    | refused => exact absurd rfl he
    | answered =>
      obtain rfl := Option.some.inj hs
      set rows := rowsSince s.completed_testcases s.m_serverTimestampOfNewestEvaluationResult
      have hq' : q ∈ rows := List.mem_filter.mpr ⟨hq, by simpa using hle⟩
      have hmax : q.TimeOfCompletion ≤ rows.foldl newerTimestamp 0 :=
        (le_foldl_newerTimestamp rows 0).2 q hq'
      refine ⟨lt_of_lt_of_le hlt (hle.trans hmax), ?_⟩
      rcases foldl_newerTimestamp_mem rows 0 with h0 | ⟨y, hy, hy'⟩
      · exact ⟨q, hq, h0.trans_le (Nat.zero_le _)⟩
      · exact ⟨y, List.mem_of_mem_filter hy, hy'.le⟩
  | _ => obtain rfl := Option.some.inj hs; exact ⟨hlt, q, hq, hle⟩

theorem not_delivered_run (hrun : Run CompletionLog.next s post u) (h : Skipped r s)
    (hstays : ∀ p ∈ post, r ∈ p.1.completed_testcases)
    (hpoll : ∀ p ∈ post, p.2 ≠ .poll .refused) : ∀ p ∈ post, r ∉ deliveredRows p := by
  induction post generalizing s with
  | nil => simp
  | cons p post ih =>
    obtain ⟨hp, t, hs, hrest⟩ := hrun.cons_inv
    intro w hw
    rcases List.mem_cons.mp hw with rfl | hw
    · exact not_delivered_of_skipped (hp ▸ h) w.2
    · cases post with
      | nil => simp at hw
      | cons q post =>
        have hrt : r ∈ t.completed_testcases := by
          rw [← hrest.cons_inv.1]
          exact hstays q (by simp)
        exact ih hrest (h.next (hpoll p List.mem_cons_self) hs hrt)
          (fun x hx => hstays x (List.mem_cons_of_mem p hx))
          (fun x hx => hpoll x (List.mem_cons_of_mem p hx)) w hw

theorem commit_eq {i : ℕ} {o : OpenInsert} (ho : s.openInserts[i]? = some o)
    (hs : s.next (.commit i) = some t) : t = { s with
      openInserts := s.openInserts.eraseIdx i
      completed_testcases := s.completed_testcases ++ o.rows } := by
  simp only [next, ho] at hs
  exact (Option.some.inj hs).symm

/-- A row that is not behind the cursor of the generator when its insert commits
is delivered, if one of the polls it stays for is answered. A row that commits
behind the cursor, while a row at the cursor is still there, is delivered by none
of them unless the statement of a poll fails. -/
theorem completion_delivery {i : ℕ} {o : OpenInsert} {k : TestcaseKey}
    (hr : Run CompletionLog.next init (pre ++ (s, .commit i) :: post) u)
    (ho : s.openInserts[i]? = some o)
    (hstays : ∀ p ∈ post, ⟨k, o.TimeOfCompletion⟩ ∈ p.1.completed_testcases)
    (hpoll : ∃ p ∈ post, p.2 = .poll .answered) :
    (s.m_serverTimestampOfNewestEvaluationResult ≤ o.TimeOfCompletion →
      ∃ p ∈ post, ⟨k, o.TimeOfCompletion⟩ ∈ deliveredRows p) ∧
    (o.TimeOfCompletion < s.m_serverTimestampOfNewestEvaluationResult →
      (∃ q ∈ s.completed_testcases,
        s.m_serverTimestampOfNewestEvaluationResult ≤ q.TimeOfCompletion) →
      (∀ p ∈ post, p.2 ≠ .poll .refused) →
      ∀ p ∈ post, ⟨k, o.TimeOfCompletion⟩ ∉ deliveredRows p) := by
  obtain ⟨_, t, hs, hrest⟩ := hr.middle
  obtain rfl := commit_eq ho hs
  refine ⟨fun hc => delivered_of_ahead hrest hc hstays hpoll, ?_⟩
  rintro hlt ⟨q, hq, hle⟩ hrefused
  exact not_delivered_run hrest ⟨hlt, q, List.mem_append_left _ hq, hle⟩ hstays hrefused

/-- An insert, its commit and a poll. -/
def promptRun : List (CompletionLog × LogEvent) × CompletionLog :=
  (exec CompletionLog.next init
    [.tick 10, .startInsert [⟨"guid", 1⟩], .commit 0, .poll .answered]).getD ([], init)

theorem completion_delivery_prompt :
    ∃ p ∈ promptRun.1.drop 3, ⟨⟨"guid", 1⟩, 10⟩ ∈ deliveredRows p := by
  have hrun : exec CompletionLog.next init
      [.tick 10, .startInsert [⟨"guid", 1⟩], .commit 0, .poll .answered] = some promptRun := by
    decide
  have hcut : promptRun.1 = promptRun.1.take 2 ++
      (⟨10, [⟨[⟨"guid", 1⟩], 10⟩], [], 0⟩, .commit 0) :: promptRun.1.drop 3 := by decide
  have hr : Run CompletionLog.next init promptRun.1 promptRun.2 := run_of_exec hrun
  rw [hcut] at hr
  exact (completion_delivery (o := ⟨[⟨"guid", 1⟩], 10⟩) hr rfl (by decide) (by decide)).1
    (by decide)

/-- Two inserts are open; the younger one commits and is polled before the older
one commits. -/
def overtakenEvents : List LogEvent :=
  [.tick 10, .startInsert [⟨"guid", 1⟩], .tick 1, .startInsert [⟨"guid", 2⟩], .commit 1,
    .poll .answered, .commit 0, .tick 5, .poll .answered, .tick 5, .poll .answered]

def overtakenRun : List (CompletionLog × LogEvent) × CompletionLog :=
  (exec CompletionLog.next init overtakenEvents).getD ([], init)

/-- The older row stays for two answered polls and is delivered by no poll of the run. -/
theorem overtaken_completion_lost :
    Run CompletionLog.next init overtakenRun.1 overtakenRun.2 ∧
    2 ≤ (overtakenRun.1.drop 7).countP (·.2 = .poll .answered) ∧
    (∀ p ∈ overtakenRun.1.drop 7, ⟨⟨"guid", 1⟩, 10⟩ ∈ p.1.completed_testcases) ∧
    ∀ p ∈ overtakenRun.1, ⟨⟨"guid", 1⟩, 10⟩ ∉ deliveredRows p := by
  have hrun : exec CompletionLog.next init overtakenEvents = some overtakenRun := by decide
  exact ⟨run_of_exec hrun, by decide, by decide, by decide⟩

end Fluffi.LocalManager
