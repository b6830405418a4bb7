import Fluffi.Systems.Pipeline

/-! The runs of a pool. Somebody can go on in each state as long as there is a worker; a pool
without workers leaves its jobs in the channel, and the main thread waits for ever when that is
full. -/

namespace Fluffi.Systems.Pipeline

variable {α β : Type*}

section Progress

variable {p : Params α β} {all : List α} {n : ℕ} {s t : State α β}

theorem exists_cons {m : Multiset β} (h : 0 < m.card) : ∃ r m', m = r ::ₘ m' := by
  obtain ⟨r, hr⟩ := Multiset.card_pos_iff_exists_mem.mp h
  obtain ⟨m', hm'⟩ := Multiset.exists_cons_of_mem hr
  exact ⟨r, m', hm'⟩

theorem exists_step_of_jobs (hjobs : s.jobs ≠ []) (hidle : 0 < s.workersIdle) :
    ∃ t, Step p s t := by
  obtain ⟨x, jobs, hcons⟩ := List.exists_cons_of_ne_nil hjobs
  obtain ⟨k, hk⟩ := Nat.exists_eq_add_of_le' hidle
  cases hwork : p.work x with
  | none => exact ⟨_, .discard hcons hidle hwork⟩
  | some r => exact ⟨_, .take hcons hk hwork⟩

theorem exists_step_of_holding (hholding : 0 < s.collectorsHolding.card) : ∃ t, Step p s t := by
  obtain ⟨r, holding, hcons⟩ := exists_cons hholding
  exact ⟨_, .add hcons⟩

/-- A signal is buffered, handed over or received. -/
theorem exists_step_of_signal {main : Phase α} (hjoins : s.main.Joins main)
    (hsignal : 0 < s.done ∨ 0 < s.workersLeaving ∨ 0 < s.collectorsLeaving) :
    ∃ t, Step p s t := by
  rcases Nat.eq_zero_or_pos s.done with hzero | hpos
  · rcases hsignal with hdone | hleaving | hleaving
    · omega
    · obtain ⟨k, hk⟩ := Nat.exists_eq_add_of_le' hleaving
      rcases Nat.eq_zero_or_pos p.doneCap with hcap | hcap
      · exact ⟨_, .workerHandsOver hcap hjoins hk⟩
      · exact ⟨_, .workerDone hk (by omega)⟩
    · obtain ⟨k, hk⟩ := Nat.exists_eq_add_of_le' hleaving
      rcases Nat.eq_zero_or_pos p.doneCap with hcap | hcap
      · exact ⟨_, .collectorHandsOver hcap hjoins hk⟩
      · exact ⟨_, .collectorDone hk (by omega)⟩
  · obtain ⟨k, hk⟩ := Nat.exists_eq_add_of_le' hpos
    exact ⟨_, .join hjoins hk⟩

variable (hcollectors : 1 ≤ p.collectors) (hresultCap : 1 ≤ p.resultCap)
include hcollectors

/-- Until the channel of the results is closed somebody empties it. -/
theorem Inv.exists_step_of_results (hinv : Inv p all s) (hopen : ¬s.main.ResultsClosed)
    (hresults : s.results ≠ []) : ∃ t, Step p s t := by
  obtain ⟨hup, -⟩ := hinv.collectors hopen
  rcases Nat.eq_zero_or_pos s.collectorsIdle with hidle | hidle
  · exact exists_step_of_holding (by omega)
  · obtain ⟨r, results, hcons⟩ := List.exists_cons_of_ne_nil hresults
    obtain ⟨k, hk⟩ := Nat.exists_eq_add_of_le' hidle
    exact ⟨_, .collect hcons hk⟩

include hresultCap

theorem Inv.exists_step_of_deliver (hinv : Inv p all s) (hopen : ¬s.main.ResultsClosed)
    (hholding : 0 < s.workersHolding.card) : ∃ t, Step p s t := by
  obtain ⟨r, holding, hcons⟩ := exists_cons hholding
  rcases Nat.lt_or_ge s.results.length p.resultCap with hlt | hge
  · exact ⟨_, .deliver hcons hlt⟩
  · refine hinv.exists_step_of_results hcollectors hopen fun hnil => ?_
    rw [hnil, List.length_nil] at hge
    omega

/-- Somebody goes on, if the main thread can get rid of its jobs. -/
theorem Inv.exists_step (hinv : Inv p all s) (hmain : s.main ≠ .returned)
    (hsend : ∀ x rest, s.main = .sending (x :: rest) →
      s.jobs.length < p.jobCap ∨ s.jobs ≠ [] ∧ 1 ≤ p.workers) : ∃ t, Step p s t := by
  cases hphase : s.main with
  | sending rest =>
    cases rest with
    | nil => exact ⟨_, .close hphase⟩
    | cons x rest =>
      rcases hsend x rest hphase with hlt | ⟨hjobs, hworkers⟩
      · exact ⟨_, .send hphase hlt⟩
      · have hopen : ¬s.main.ResultsClosed := by
          rw [hphase]
          exact id
        have hsending := hinv.sending (by rw [hphase]; exact id)
        have hup := hinv.workers hopen
        rw [hphase, Phase.workersUp] at hup
        rcases Nat.eq_zero_or_pos s.workersIdle with hidle | hidle
        · exact hinv.exists_step_of_deliver hcollectors hresultCap hopen (by omega)
        · exact exists_step_of_jobs hjobs hidle
  | joining n =>
    cases n with
    | zero => exact ⟨_, .drain hphase⟩
    | succ n =>
      have hopen : ¬s.main.ResultsClosed := by
        rw [hphase]
        exact id
      have hjoins : s.main.Joins (.joining n) := hphase ▸ .worker
      have hup := hinv.workers hopen
      rw [hphase, Phase.workersUp] at hup
      rcases Nat.eq_zero_or_pos s.workersIdle with hidle | hidle
      · rcases Nat.eq_zero_or_pos s.workersHolding.card with hholding | hholding
        · exact exists_step_of_signal hjoins (by omega)
        · exact hinv.exists_step_of_deliver hcollectors hresultCap hopen hholding
      · by_cases hjobs : s.jobs = []
        · obtain ⟨k, hk⟩ := Nat.exists_eq_add_of_le' hidle
          exact ⟨_, .leave (by rw [hphase]; trivial) hjobs hk⟩
        · exact exists_step_of_jobs hjobs hidle
  | draining =>
    by_cases hresults : s.results = []
    · exact ⟨_, .closeResults hphase hresults⟩
    · exact hinv.exists_step_of_results hcollectors (by rw [hphase]; exact id) hresults
  | collecting n =>
    cases n with
    | zero => exact ⟨_, .finish hphase⟩
    | succ n =>
      have hclosed : s.main.ResultsClosed := by
        rw [hphase]
        trivial
      have hjoins : s.main.Joins (.collecting n) := hphase ▸ .collector
      obtain ⟨hup, hresults⟩ := hinv.collectorsUp hclosed
      rw [hphase, Phase.collectorsUp] at hup
      rcases Nat.eq_zero_or_pos s.collectorsIdle with hidle | hidle
      · rcases Nat.eq_zero_or_pos s.collectorsHolding.card with hholding | hholding
        · exact exists_step_of_signal hjoins (by omega)
        · exact exists_step_of_holding hholding
      · obtain ⟨k, hk⟩ := Nat.exists_eq_add_of_le' hidle
        exact ⟨_, .quit hclosed hresults hk⟩
  | returned => exact absurd hphase hmain

omit hcollectors hresultCap

/-- At the end nothing is on its way. -/
theorem Inv.conserved_of_returned (hinv : Inv p all s) (hmain : s.main = .returned) :
    (s.collected + s.jobs.filterMap p.work : Multiset β) = (all.filterMap p.work : List β) := by
  have hclosed : s.main.ResultsClosed := by
    rw [hmain]
    trivial
  obtain ⟨-, hholding, -⟩ := hinv.workersGone hclosed
  obtain ⟨hup, hresults⟩ := hinv.collectorsUp hclosed
  have hzero : s.main.collectorsUp = 0 := by
    rw [hmain]
    rfl
  rw [hzero] at hup
  have hcollecting : s.collectorsHolding = 0 := Multiset.card_eq_zero.mp (by omega)
  have hconserved := hinv.conserved
  have hrest : s.main.rest = [] := by
    rw [hmain]
    rfl
  rw [hholding, hresults, hcollecting, hrest, List.append_nil] at hconserved
  simpa using hconserved

/-! ### Pools without workers -/

/-- What the state of a pool is if nobody takes a job. -/
structure Idle (all : List α) (s : State α β) : Prop where
  workersIdle : s.workersIdle = 0
  workersHolding : s.workersHolding = 0
  results : s.results = []
  collectorsHolding : s.collectorsHolding = 0
  collected : s.collected = []
  jobs : s.jobs ++ s.main.rest = all

theorem Idle.step (hidle : Idle all s) (h : Step p s t) : Idle all t := by
  have hzero := hidle.workersIdle
  have hnil := hidle.results
  cases h with
  | @send x rest hmain hcap =>
    have hjobs := hidle.jobs
    rw [hmain, Phase.rest] at hjobs
    refine { hidle with jobs := ?_ }
    rw [← hjobs, Phase.rest, List.append_assoc, List.singleton_append]
  | close hmain =>
    have hjobs := hidle.jobs
    rw [hmain] at hjobs
    exact { hidle with jobs := hjobs }
  | discard hjobs hpos hwork => omega
  | take hjobs hpos hwork => omega
  | deliver hholding hcap =>
    rw [hidle.workersHolding] at hholding
    exact absurd hholding.symm Multiset.cons_ne_zero
  | leave hclosed hjobs hpos => omega
  | workerDone hleaving hcap => exact { hidle with }
  | workerHandsOver hcap hjoins hleaving =>
    have hjobs := hidle.jobs
    rw [← hjoins.closed.2.2.2] at hjobs
    exact { hidle with jobs := hjobs }
  | join hjoins hdone =>
    have hjobs := hidle.jobs
    rw [← hjoins.closed.2.2.2] at hjobs
    exact { hidle with jobs := hjobs }
  | drain hmain =>
    have hjobs := hidle.jobs
    rw [hmain] at hjobs
    exact { hidle with jobs := hjobs }
  | closeResults hmain hresults =>
    have hjobs := hidle.jobs
    rw [hmain] at hjobs
    exact { hidle with jobs := hjobs }
  | collect hresults hpos =>
    rw [hnil] at hresults
    cases hresults
  | add hholding =>
    rw [hidle.collectorsHolding] at hholding
    exact absurd hholding.symm Multiset.cons_ne_zero
  | quit hclosed hresults hpos => exact { hidle with }
  | collectorDone hleaving hcap => exact { hidle with }
  | collectorHandsOver hcap hjoins hleaving =>
    have hjobs := hidle.jobs
    rw [← hjoins.closed.2.2.2] at hjobs
    exact { hidle with jobs := hjobs }
  | finish hmain =>
    have hjobs := hidle.jobs
    rw [hmain] at hjobs
    exact { hidle with jobs := hjobs }

theorem Reaches.idle (hworkers : p.workers = 0) (h : Reaches p all n s) : Idle all s := by
  induction h with
  | start => exact ⟨hworkers, rfl, rfl, rfl, rfl, rfl⟩
  | step _ hstep ih => exact ih.step hstep

/-- The main thread sends as many jobs as the channel holds. -/
theorem reaches_sent {k : ℕ} (hcap : k ≤ p.jobCap) (hk : k ≤ all.length) :
    Reaches p all k
      { State.start p all with main := .sending (all.drop k), jobs := all.take k } := by
  induction k with
  | zero => exact .start
  | succ k ih =>
    have hdrop := List.drop_eq_getElem_cons (show k < all.length by omega)
    have hstep := Step.send (p := p)
      (s := { State.start p all with main := .sending (all.drop k), jobs := all.take k })
      (congrArg Phase.sending hdrop)
      (by rw [List.length_take_of_le (by omega)]; omega)
    have htake : all.take (k + 1) = all.take k ++ [all[k]] := by
      rw [List.take_add_one, List.getElem?_eq_getElem (by omega), Option.toList_some]
    rw [htake]
    exact (ih (by omega) (by omega)).step hstep

/-- Nobody can do anything, if the channel of the jobs is full and nobody takes one. -/
theorem Idle.not_step (hidle : Idle all s) (hinv : Inv p all s) {x : α} {rest : List α}
    (hmain : s.main = .sending (x :: rest)) (hfull : p.jobCap ≤ s.jobs.length) : ¬Step p s t := by
  obtain ⟨hleaving, hdone⟩ := hinv.sending (by rw [hmain]; exact id)
  obtain ⟨-, hleaving'⟩ := hinv.collectors (by rw [hmain]; exact id)
  have hzero := hidle.workersIdle
  intro h
  cases h with
  | send hsending hcap => omega
  | close hsending =>
    rw [hmain] at hsending
    cases hsending
  | discard hjobs hpos hwork => omega
  | take hjobs hpos hwork => omega
  | deliver hholding hcap =>
    rw [hidle.workersHolding] at hholding
    exact absurd hholding.symm Multiset.cons_ne_zero
  | leave hclosed hjobs hpos => omega
  | workerDone hpos hcap => omega
  | workerHandsOver hcap hjoins hpos => omega
  | join hjoins hpos => omega
  | drain hdrain =>
    rw [hmain] at hdrain
    cases hdrain
  | closeResults hdrain hresults =>
    rw [hmain] at hdrain
    cases hdrain
  | collect hresults hpos =>
    rw [hidle.results] at hresults
    cases hresults
  | add hholding =>
    rw [hidle.collectorsHolding] at hholding
    exact absurd hholding.symm Multiset.cons_ne_zero
  | quit hclosed hresults hpos =>
    rw [hmain] at hclosed
    exact hclosed
  | collectorDone hpos hcap => omega
  | collectorHandsOver hcap hjoins hpos => omega
  | finish hfinish =>
    rw [hmain] at hfinish
    cases hfinish

end Progress

/-! ### Results -/

section Progress

variable {p : Params α β} {all : List α} {n : ℕ} {s : State α β}

/-- However the threads are scheduled, the run ends. -/
theorem bounded (p : Params α β) (all : List α) : ∃ N, ∀ n s, Reaches p all n s → n ≤ N :=
  ⟨_, fun _ s hs => (Nat.le_add_right _ s.left).trans hs.add_left_le⟩

/-- Somebody goes on if there is a worker, or room for all the jobs. -/
theorem Reaches.exists_step (hcollectors : 1 ≤ p.collectors) (hjobCap : 1 ≤ p.jobCap)
    (hresultCap : 1 ≤ p.resultCap) (h : Reaches p all n s)
    (hroom : 1 ≤ p.workers ∨ all.length ≤ p.jobCap) (hmain : s.main ≠ .returned) :
    ∃ t, Step p s t := by
  refine h.inv.exists_step hcollectors hresultCap hmain fun x rest hsending => ?_
  by_cases hworkers : 1 ≤ p.workers
  · by_cases hlt : s.jobs.length < p.jobCap
    · exact .inl hlt
    · refine .inr ⟨fun hnil => ?_, hworkers⟩
      rw [hnil, List.length_nil] at hlt
      omega
  · have hlength := hroom.resolve_left hworkers
    have hjobs := (h.idle (by omega)).jobs
    rw [hsending, Phase.rest] at hjobs
    rw [← hjobs, List.length_append, List.length_cons] at hlength
    exact .inl (by omega)

/-- Without a worker the main thread returns only if the channel has room for all the jobs. -/
theorem length_le_of_progress (hworkers : p.workers = 0)
    (hprogress : ∀ n s, Reaches p all n s → s.main ≠ .returned → ∃ t, Step p s t) :
    all.length ≤ p.jobCap := by
  by_contra hfull
  have hsent := @reaches_sent _ _ p all _ le_rfl (by omega)
  have hdrop := List.drop_eq_getElem_cons (show p.jobCap < all.length by omega)
  obtain ⟨t, hstep⟩ := hprogress _ _ hsent (fun hmain => by cases hmain)
  exact (hsent.idle hworkers).not_step hsent.inv (congrArg Phase.sending hdrop)
    (by rw [List.length_take_of_le (by omega)]) hstep

/-- Workers leave no job in the channel. -/
theorem Reaches.jobs_eq_nil (h : Reaches p all n s) (hworkers : 1 ≤ p.workers)
    (hmain : s.main = .returned) : s.jobs = [] := by
  obtain ⟨hidle, hholding, -⟩ := h.inv.workersGone (by rw [hmain]; trivial)
  refine h.inv.jobsDone (by rw [hmain]; trivial) ?_
  rw [hidle, hholding, Multiset.card_zero]
  exact hworkers

theorem Reaches.exists_returned
    (hprogress : ∀ n s, Reaches p all n s → s.main ≠ .returned → ∃ t, Step p s t)
    (h : Reaches p all n s) : ∃ m t, Reaches p all m t ∧ t.main = .returned := by
  generalize hk : s.left = k
  induction k using Nat.strong_induction_on generalizing n s with
  | _ k ih =>
    by_cases hmain : s.main = .returned
    · exact ⟨n, s, h, hmain⟩
    · obtain ⟨t, hstep⟩ := hprogress n s h hmain
      exact ih t.left (hk ▸ hstep.left_lt) (h.step hstep) rfl

end Progress

/-- However the threads are scheduled, the main thread returns, and then the results of all jobs
have been collected. -/
structure Completes (p : Params α β) (all : List α) : Prop where
  bounded : ∃ N, ∀ n s, Reaches p all n s → n ≤ N
  progress : ∀ n s, Reaches p all n s → s.main ≠ .returned → ∃ t, Step p s t
  collected : ∀ n s, Reaches p all n s → s.main = .returned →
    s.collected.Perm (all.filterMap p.work)

/-- However the threads are scheduled, the main thread returns, and then a worker has taken each of
the jobs. Only workers take jobs out of the channel. -/
structure Serves (p : Params α β) (all : List α) : Prop where
  bounded : ∃ N, ∀ n s, Reaches p all n s → n ≤ N
  progress : ∀ n s, Reaches p all n s → s.main ≠ .returned → ∃ t, Step p s t
  taken : ∀ n s, Reaches p all n s → s.main = .returned → s.jobs = []

section Completes

variable {p : Params α β} {all : List α}

/-- A pool completes if it has a worker. Without one it does only if the channel takes all the jobs,
and they have no results. -/
theorem completes_iff (hcollectors : 1 ≤ p.collectors) (hjobCap : 1 ≤ p.jobCap)
    (hresultCap : 1 ≤ p.resultCap) :
    Completes p all ↔
      1 ≤ p.workers ∨ all.length ≤ p.jobCap ∧ all.filterMap p.work = [] := by
  constructor
  · intro h
    by_cases hworkers : 1 ≤ p.workers
    · exact .inl hworkers
    · have hzero : p.workers = 0 := by omega
      obtain ⟨m, t, ht, hmain⟩ := Reaches.start.exists_returned h.progress
      have hperm := h.collected m t ht hmain
      rw [(ht.idle hzero).collected] at hperm
      exact .inr ⟨length_le_of_progress hzero h.progress, hperm.nil_eq.symm⟩
  · intro h
    refine ⟨bounded p all, fun n s hs hmain => ?_, fun n s hs hmain => ?_⟩
    · exact hs.exists_step hcollectors hjobCap hresultCap (h.imp_right fun h => h.1) hmain
    · by_cases hworkers : 1 ≤ p.workers
      · have hconserved := hs.inv.conserved_of_returned hmain
        rw [hs.jobs_eq_nil hworkers hmain, List.filterMap_nil, Multiset.coe_nil, add_zero,
          Multiset.coe_eq_coe] at hconserved
        exact hconserved
      · rw [(hs.idle (by omega)).collected, (h.resolve_left hworkers).2]

end Completes

end Fluffi.Systems.Pipeline
