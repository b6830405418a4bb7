import Fluffi.Generator.Manager
import Fluffi.LocalManager.Welcome
import Fluffi.Shared.Files

/-! The time that the queue cleaner waits before it reinserts a testcase. The first round asks
the local manager for the hang timeout and sets the time before it has an answer. Later rounds
find it set and do not ask again. -/

namespace Fluffi.Generator

open Shared
open LocalManager (FluffiSetting settingValue)

/-- The configuration that the local manager has in a round, if it can answer a request for
it, and the clock. -/
structure CleaningRound where
  settings : List FluffiSetting
  respReceived : Bool
  now : ℤ

/-- How `reinsertTestcasesWithNoResponse` ends, and the interval it leaves. -/
inductive Reinsertion where
  | returned (m_intervallToWaitForReinsertionInMillisec : ℤ)
  /-- It calls `reinsertTestcasesHavingNoAnswerSince`. -/
  | called (m_intervallToWaitForReinsertionInMillisec : ℤ)
  | exited

namespace CleaningRound

def reinsertTestcasesWithNoResponse (round : CleaningRound)
    (m_intervallToWaitForReinsertionInMillisec : ℤ) : Except Abnormal Reinsertion :=
  if m_intervallToWaitForReinsertionInMillisec ≠ 0 then
    .ok (.called m_intervallToWaitForReinsertionInMillisec)
  else
    let m_intervallToWaitForReinsertionInMillisec := 5 * 60 * 1000
    if !round.respReceived then .ok (.returned m_intervallToWaitForReinsertionInMillisec)
    else
      match settingValue round.settings "hangTimeout".toList with
      | none => .ok (.returned m_intervallToWaitForReinsertionInMillisec)
      | some value =>
        match stoi value with
        | none => .ok .exited
        | some hangTimeout =>
          if IsInt (2 * hangTimeout) then
            .ok (.called (if m_intervallToWaitForReinsertionInMillisec < 2 * hangTimeout then
              2 * hangTimeout else m_intervallToWaitForReinsertionInMillisec))
          else .error .signedOverflow

/-- The call at the end of a round. -/
def reinsert {τ : Type} (round : CleaningRound) (interval : ℤ)
    (m_testcaseManager : TGTestcaseManager τ) : TGTestcaseManager τ :=
  m_testcaseManager.reinsertTestcasesHavingNoAnswerSince (round.now - interval)

/-- The hang timeout of the configuration. -/
def hangTimeout (round : CleaningRound) : Option ℤ :=
  (settingValue round.settings "hangTimeout".toList).bind stoi

/-- What the round learns of it if it asks. -/
def answered (round : CleaningRound) : Option ℤ :=
  if round.respReceived then round.hangTimeout else none

/-- There is an answer, and its hang timeout is not a number. -/
def Unreadable (round : CleaningRound) : Prop :=
  round.respReceived ∧ ∃ value, settingValue round.settings "hangTimeout".toList = some value ∧
    stoi value = none

end CleaningRound

/-- The rounds that call `reinsertTestcasesHavingNoAnswerSince`, with the interval. -/
def cleaningRounds : ℤ → List CleaningRound → Except Abnormal (List (CleaningRound × ℤ))
  | _, [] => .ok []
  | interval, round :: rounds =>
    match round.reinsertTestcasesWithNoResponse interval with
    | .error e => .error e
    | .ok .exited => .ok []
    | .ok (.returned interval) => cleaningRounds interval rounds
    | .ok (.called interval) => (cleaningRounds interval rounds).map ((round, interval) :: ·)

/-- Each call waits for five minutes and for twice the hang timeout of that time. -/
def WaitsEnough (rounds : List CleaningRound) : Prop :=
  ∃ calls, cleaningRounds 0 rounds = .ok calls ∧ ∀ call ∈ calls,
    5 * 60 * 1000 ≤ call.2 ∧ ∀ hangTimeout, call.1.hangTimeout = some hangTimeout →
      2 * hangTimeout ≤ call.2

/-! ### The first round and the others -/

/-- The interval stays as it is once it is set. -/
theorem cleaningRounds_of_ne {interval : ℤ} (h : interval ≠ 0) (rounds : List CleaningRound) :
    cleaningRounds interval rounds = .ok (rounds.map (·, interval)) := by
  induction rounds with
  | nil => rfl
  | cons round rounds ih =>
    rw [cleaningRounds, CleaningRound.reinsertTestcasesWithNoResponse, if_pos h]
    dsimp only
    rw [ih]
    rfl

/-- What the first round does, for each outcome of its request. -/
theorem first_cases (first : CleaningRound) :
    (first.Unreadable ∧ first.reinsertTestcasesWithNoResponse 0 = .ok .exited) ∨
    (¬ first.Unreadable ∧ first.answered = none ∧
      first.reinsertTestcasesWithNoResponse 0 = .ok (.returned 300000)) ∨
    (¬ first.Unreadable ∧ ∃ hangTimeout, first.answered = some hangTimeout ∧
      first.hangTimeout = some hangTimeout ∧
      first.reinsertTestcasesWithNoResponse 0 =
        if IsInt (2 * hangTimeout) then .ok (.called (max 300000 (2 * hangTimeout)))
        else .error .signedOverflow) := by
  rw [CleaningRound.reinsertTestcasesWithNoResponse, if_neg (by simp)]
  cases hresp : first.respReceived with
  | false =>
    refine .inr (.inl ⟨fun h => ?_, by simp [CleaningRound.answered, hresp], rfl⟩)
    exact absurd h.1 (by simp [hresp])
  | true =>
    cases hvalue : settingValue first.settings "hangTimeout".toList with
    | none =>
      refine .inr (.inl ⟨fun ⟨_, value, hsome, _⟩ => ?_, ?_, rfl⟩)
      · cases hvalue.symm.trans hsome
      · simp only [CleaningRound.answered, hresp, if_true, CleaningRound.hangTimeout, hvalue]
        rfl
    | some value =>
      have htimeout : first.hangTimeout = stoi value := by
        rw [CleaningRound.hangTimeout, hvalue]
        rfl
      cases hnumber : stoi value with
      | none => exact .inl ⟨⟨hresp, value, hvalue, hnumber⟩, by simp [hnumber]⟩
      | some hangTimeout =>
        refine .inr (.inr ⟨fun ⟨_, value', hvalue', hnone⟩ => ?_, hangTimeout, ?_,
          htimeout.trans hnumber, ?_⟩)
        · cases hvalue.symm.trans hvalue'
          cases hnumber.symm.trans hnone
        · rw [CleaningRound.answered, if_pos hresp, htimeout, hnumber]
        · simp only [Bool.not_true, Bool.false_eq_true, if_false, hnumber, max_def_lt]
          rfl

/-- What is left to show for rounds that all use one interval. -/
theorem waitsEnough_of_calls {rounds calling : List CleaningRound} {interval : ℤ}
    (hcalls : cleaningRounds 0 rounds = .ok (calling.map (·, interval)))
    (hinterval : 5 * 60 * 1000 ≤ interval) :
    WaitsEnough rounds ↔ ∀ round ∈ calling, ∀ hangTimeout,
      round.hangTimeout = some hangTimeout → 2 * hangTimeout ≤ interval := by
  rw [WaitsEnough, hcalls]
  constructor
  · rintro ⟨calls, heq, h⟩ round hround
    cases heq
    exact (h (round, interval) (List.mem_map_of_mem hround)).2
  · refine fun h => ⟨_, rfl, fun call hcall => ?_⟩
    obtain ⟨round, hround, rfl⟩ := List.mem_map.mp hcall
    exact ⟨hinterval, h round hround⟩

theorem waitsEnough_nil : WaitsEnough [] := ⟨[], rfl, by simp⟩

/-- The interval is long enough in all rounds if and only if the first round, unless it ends
the process, can double its hang timeout, and what it gets is enough for the others. -/
theorem waitsEnough_iff (rounds : List CleaningRound) :
    WaitsEnough rounds ↔ ∀ first others, rounds = first :: others → ¬ first.Unreadable →
      (∀ hangTimeout, first.answered = some hangTimeout → IsInt (2 * hangTimeout)) ∧
      ∀ round ∈ others, ∀ hangTimeout, round.hangTimeout = some hangTimeout →
        2 * hangTimeout ≤ max (5 * 60 * 1000) (2 * first.answered.getD 0) := by
  cases rounds with
  | nil => exact iff_of_true waitsEnough_nil (by simp)
  | cons first others =>
    have hcons {P : CleaningRound → List CleaningRound → Prop} :
        (∀ first' others', first :: others = first' :: others' → P first' others') ↔
          P first others := by
      constructor
      · exact fun h => h first others rfl
      · rintro h _ _ ⟨⟩
        exact h
    rw [hcons]
    rcases first_cases first with ⟨hexit, hfirst⟩ | ⟨hgoes, hanswer, hfirst⟩ |
      ⟨hgoes, hangTimeout, hanswer, htimeout, hfirst⟩
    · refine iff_of_true ⟨[], ?_, by simp⟩ (absurd hexit)
      rw [cleaningRounds, hfirst]
    · have hcalls : cleaningRounds 0 (first :: others) = .ok (others.map (·, 300000)) := by
        rw [cleaningRounds, hfirst]
        exact cleaningRounds_of_ne (by decide) others
      rw [waitsEnough_of_calls hcalls (by decide), hanswer]
      simp [hgoes]
    · by_cases hint : IsInt (2 * hangTimeout)
      · have hcalls : cleaningRounds 0 (first :: others) =
            .ok ((first :: others).map (·, max 300000 (2 * hangTimeout))) := by
          rw [cleaningRounds, hfirst, if_pos hint]
          dsimp only
          rw [cleaningRounds_of_ne (by omega)]
          rfl
        rw [waitsEnough_of_calls hcalls (by omega), List.forall_mem_cons, hanswer]
        constructor
        · rintro ⟨-, hothers⟩ -
          exact ⟨by rintro _ ⟨⟩; exact hint, hothers⟩
        · refine fun h => ⟨?_, (h hgoes).2⟩
          rintro _ heq
          cases htimeout.symm.trans heq
          exact le_max_right _ _
      · refine iff_of_false ?_ fun h => hint ((h hgoes).1 hangTimeout hanswer)
        rintro ⟨calls, hcalls, -⟩
        rw [cleaningRounds, hfirst, if_neg hint] at hcalls
        cases hcalls

/-- A round of a job whose hang timeout is six minutes. -/
def sixMinutes (respReceived : Bool) (now : ℤ) : CleaningRound :=
  ⟨[⟨"hangTimeout".toList, "360000".toList⟩], respReceived, now⟩

/-- The first request is lost. The second round waits for five minutes, not for twelve. -/
theorem lost_request_shortens : ¬ WaitsEnough [sixMinutes false 0, sixMinutes true 1000] := by
  rintro ⟨calls, hcalls, h⟩
  have hround : (sixMinutes true 1000, 300000) ∈ calls := by
    cases hcalls
    exact List.mem_singleton_self _
  have htimeout : (sixMinutes true 1000).hangTimeout = some 360000 := by decide
  have := (h _ hround).2 360000 htimeout
  omega

/-! ### What is reinserted -/

/-- A testcase that a call reinserts was sent before the interval began. -/
theorem reinserted_waited {τ : Type} {round : CleaningRound} {interval : ℤ}
    {m : TGTestcaseManager τ} {d : TestcaseDescriptor τ}
    (hafter : d ∈ (round.reinsert interval m).m_pendingTestcaseQueue)
    (hbefore : d ∉ m.m_pendingTestcaseQueue) :
    d ∈ m.m_sentButNotEvaluatedTestcaseSet ∧ interval < round.now - d.m_timeOfLastSend := by
  rw [CleaningRound.reinsert, TGTestcaseManager.reinsert_eq] at hafter
  rcases List.mem_append.mp hafter with hpending | hmoved
  · exact absurd hpending hbefore
  · obtain ⟨hsent, htime⟩ := List.mem_filter.mp hmoved
    have := of_decide_eq_true htime
    exact ⟨hsent, by omega⟩

end Fluffi.Generator
