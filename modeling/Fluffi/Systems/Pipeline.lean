import Mathlib.Data.List.Perm.Basic
import Mathlib.Data.Multiset.AddSub
import Mathlib.Data.Multiset.Filter
import Mathlib.Algebra.Order.Ring.Nat
import Mathlib.Algebra.Order.Group.Multiset
import Mathlib.Tactic.Abel

/-! A pool of workers between two channels. The main thread sends its jobs, closes the channel and
waits for the workers; then it waits until the channel of the results is empty, closes it and
waits for the collectors. The busy wait of the main thread does not change the state, so it is not
a step: a run goes on as long as anybody can do something else. -/

namespace Fluffi.Systems.Pipeline

variable {α β : Type*}

/-- Numbers of threads, capacities of the channels, and what a worker makes of a job. -/
structure Params (α β : Type*) where
  workers : ℕ
  collectors : ℕ
  jobCap : ℕ
  resultCap : ℕ
  doneCap : ℕ
  work : α → Option β

/-- What the main thread does: it still has jobs to send, waits for so many workers, waits for the
results to be collected, waits for so many collectors, or has returned. -/
inductive Phase (α : Type*)
  | sending (rest : List α)
  | joining (n : ℕ)
  | draining
  | collecting (n : ℕ)
  | returned

/-- Workers and collectors wait for their channel, hold a result, or are about to signal that they
are done. -/
structure State (α β : Type*) where
  main : Phase α
  jobs : List α
  workersIdle : ℕ
  workersHolding : Multiset β
  workersLeaving : ℕ
  results : List β
  collectorsIdle : ℕ
  collectorsHolding : Multiset β
  collectorsLeaving : ℕ
  done : ℕ
  collected : List β

def State.start (p : Params α β) (jobs : List α) : State α β :=
  ⟨.sending jobs, [], p.workers, 0, 0, [], p.collectors, 0, 0, 0, []⟩

/-- The channel of the jobs is closed. -/
def Phase.JobsClosed : Phase α → Prop
  | .sending _ => False
  | _ => True

/-- The channel of the results is closed. -/
def Phase.ResultsClosed : Phase α → Prop
  | .collecting _ => True
  | .returned => True
  | _ => False

/-- The main thread waits for a signal, and goes on to the second phase with it. -/
inductive Phase.Joins : Phase α → Phase α → Prop
  | worker {n : ℕ} : Joins (.joining (n + 1)) (.joining n)
  | collector {n : ℕ} : Joins (.collecting (n + 1)) (.collecting n)

/-- One step of one thread. On a channel without a buffer a signal is handed over. -/
inductive Step (p : Params α β) : State α β → State α β → Prop
  | send {s : State α β} {x : α} {rest : List α} :
      s.main = .sending (x :: rest) → s.jobs.length < p.jobCap →
      Step p s { s with main := .sending rest, jobs := s.jobs ++ [x] }
  | close {s : State α β} : s.main = .sending [] → Step p s { s with main := .joining p.workers }
  | discard {s : State α β} {x : α} {jobs : List α} :
      s.jobs = x :: jobs → 0 < s.workersIdle → p.work x = none →
      Step p s { s with jobs := jobs }
  | take {s : State α β} {x : α} {jobs : List α} {n : ℕ} {r : β} :
      s.jobs = x :: jobs → s.workersIdle = n + 1 → p.work x = some r →
      Step p s
        { s with jobs := jobs, workersIdle := n, workersHolding := r ::ₘ s.workersHolding }
  | deliver {s : State α β} {r : β} {holding : Multiset β} :
      s.workersHolding = r ::ₘ holding → s.results.length < p.resultCap →
      Step p s
        { s with
          workersHolding := holding, workersIdle := s.workersIdle + 1
          results := s.results ++ [r] }
  | leave {s : State α β} {n : ℕ} :
      s.main.JobsClosed → s.jobs = [] → s.workersIdle = n + 1 →
      Step p s { s with workersIdle := n, workersLeaving := s.workersLeaving + 1 }
  | workerDone {s : State α β} {n : ℕ} : s.workersLeaving = n + 1 → s.done < p.doneCap →
      Step p s { s with workersLeaving := n, done := s.done + 1 }
  | workerHandsOver {s : State α β} {n : ℕ} {main : Phase α} :
      p.doneCap = 0 → s.main.Joins main → s.workersLeaving = n + 1 →
      Step p s { s with main := main, workersLeaving := n }
  | join {s : State α β} {n : ℕ} {main : Phase α} :
      s.main.Joins main → s.done = n + 1 → Step p s { s with main := main, done := n }
  | drain {s : State α β} : s.main = .joining 0 → Step p s { s with main := .draining }
  | closeResults {s : State α β} : s.main = .draining → s.results = [] →
      Step p s { s with main := .collecting p.collectors }
  | collect {s : State α β} {r : β} {results : List β} {n : ℕ} :
      s.results = r :: results → s.collectorsIdle = n + 1 →
      Step p s
        { s with
          results := results, collectorsIdle := n
          collectorsHolding := r ::ₘ s.collectorsHolding }
  | add {s : State α β} {r : β} {holding : Multiset β} :
      s.collectorsHolding = r ::ₘ holding →
      Step p s
        { s with
          collectorsHolding := holding, collectorsIdle := s.collectorsIdle + 1
          collected := s.collected ++ [r] }
  | quit {s : State α β} {n : ℕ} :
      s.main.ResultsClosed → s.results = [] → s.collectorsIdle = n + 1 →
      Step p s { s with collectorsIdle := n, collectorsLeaving := s.collectorsLeaving + 1 }
  | collectorDone {s : State α β} {n : ℕ} : s.collectorsLeaving = n + 1 → s.done < p.doneCap →
      Step p s { s with collectorsLeaving := n, done := s.done + 1 }
  | collectorHandsOver {s : State α β} {n : ℕ} {main : Phase α} :
      p.doneCap = 0 → s.main.Joins main → s.collectorsLeaving = n + 1 →
      Step p s { s with main := main, collectorsLeaving := n }
  | finish {s : State α β} : s.main = .collecting 0 → Step p s { s with main := .returned }

/-- The states that a pool gets to in `n` steps. -/
inductive Reaches (p : Params α β) (jobs : List α) : ℕ → State α β → Prop
  | start : Reaches p jobs 0 (.start p jobs)
  | step {n : ℕ} {s t : State α β} : Reaches p jobs n s → Step p s t → Reaches p jobs (n + 1) t

/-! ### The number of steps -/

def Phase.rank : Phase α → ℕ
  | .sending rest => 5 * rest.length + 4
  | .joining _ => 3
  | .draining => 2
  | .collecting _ => 1
  | .returned => 0

/-- What is left to do. A job weighs as much as the steps that it takes, and so does a thread. -/
def State.left (s : State α β) : ℕ :=
  s.main.rank + 4 * s.jobs.length + 2 * s.results.length + s.done +
    3 * s.workersIdle + 6 * s.workersHolding.card + 2 * s.workersLeaving +
    3 * s.collectorsIdle + 4 * s.collectorsHolding.card + 2 * s.collectorsLeaving

section Steps

variable {p : Params α β} {jobs : List α} {n : ℕ} {s t : State α β}

theorem Phase.Joins.rank_eq {a b : Phase α} (h : a.Joins b) : b.rank = a.rank := by
  cases h with
  | worker => rfl
  | collector => rfl

theorem Step.left_lt (h : Step p s t) : t.left < s.left := by
  cases h with
  | send hmain hcap =>
    simp only [State.left, hmain, Phase.rank, List.length_append, List.length_cons,
      List.length_nil]
    omega
  | close hmain =>
    simp only [State.left, hmain, Phase.rank, List.length_nil]
    omega
  | discard hjobs hidle hwork =>
    simp only [State.left, hjobs, List.length_cons]
    omega
  | take hjobs hidle hwork =>
    simp only [State.left, hjobs, hidle, List.length_cons, Multiset.card_cons]
    omega
  | deliver hholding hcap =>
    simp only [State.left, hholding, Multiset.card_cons, List.length_append, List.length_cons,
      List.length_nil]
    omega
  | leave hclosed hjobs hidle =>
    simp only [State.left, hidle]
    omega
  | workerDone hleaving hcap =>
    simp only [State.left, hleaving]
    omega
  | workerHandsOver hcap hjoins hleaving =>
    simp only [State.left, hjoins.rank_eq, hleaving]
    omega
  | join hjoins hdone =>
    simp only [State.left, hjoins.rank_eq, hdone]
    omega
  | drain hmain =>
    simp only [State.left, hmain, Phase.rank]
    omega
  | closeResults hmain hresults =>
    simp only [State.left, hmain, Phase.rank]
    omega
  | collect hresults hidle =>
    simp only [State.left, hresults, hidle, List.length_cons, Multiset.card_cons]
    omega
  | add hholding =>
    simp only [State.left, hholding, Multiset.card_cons]
    omega
  | quit hclosed hresults hidle =>
    simp only [State.left, hidle]
    omega
  | collectorDone hleaving hcap =>
    simp only [State.left, hleaving]
    omega
  | collectorHandsOver hcap hjoins hleaving =>
    simp only [State.left, hjoins.rank_eq, hleaving]
    omega
  | finish hmain =>
    simp only [State.left, hmain, Phase.rank]
    omega

/-- However the threads are scheduled, there are no more steps than the start has left. -/
theorem Reaches.add_left_le (h : Reaches p jobs n s) :
    n + s.left ≤ (State.start p jobs).left := by
  induction h with
  | start => omega
  | step _ hstep ih =>
    have := hstep.left_lt
    omega

end Steps

/-! ### Threads and results -/

/-- Jobs that have not been sent. -/
def Phase.rest : Phase α → List α
  | .sending rest => rest
  | _ => []

/-- How many workers have not been waited for. -/
def Phase.workersUp (p : Params α β) : Phase α → ℕ
  | .sending _ => p.workers
  | .joining n => n
  | _ => 0

/-- How many collectors are still waited for, when they are. -/
def Phase.collectorsUp : Phase α → ℕ
  | .collecting n => n
  | _ => 0

/-- Signals are from workers before the results are closed, and from collectors behind it; a worker
leaves only when there are no more jobs; and every result is somewhere. -/
structure Inv (p : Params α β) (all : List α) (s : State α β) : Prop where
  sending : ¬s.main.JobsClosed → s.workersLeaving = 0 ∧ s.done = 0
  workers : ¬s.main.ResultsClosed →
    s.workersIdle + s.workersHolding.card + s.workersLeaving + s.done = s.main.workersUp p
  workersGone : s.main.ResultsClosed →
    s.workersIdle = 0 ∧ s.workersHolding = 0 ∧ s.workersLeaving = 0
  collectors : ¬s.main.ResultsClosed →
    s.collectorsIdle + s.collectorsHolding.card = p.collectors ∧ s.collectorsLeaving = 0
  collectorsUp : s.main.ResultsClosed →
    s.collectorsIdle + s.collectorsHolding.card + s.collectorsLeaving + s.done =
      s.main.collectorsUp ∧ s.results = []
  jobsDone : s.main.JobsClosed → s.workersIdle + s.workersHolding.card < p.workers → s.jobs = []
  conserved : (s.collected + s.collectorsHolding + s.results + s.workersHolding +
    (s.jobs ++ s.main.rest).filterMap p.work : Multiset β) = (all.filterMap p.work : List β)

section Invariant

variable {p : Params α β} {all : List α} {n : ℕ} {s t : State α β}

theorem inv_start : Inv p all (.start p all) where
  sending _ := ⟨rfl, rfl⟩
  workers _ := rfl
  workersGone h := h.elim
  collectors _ := ⟨rfl, rfl⟩
  collectorsUp h := h.elim
  jobsDone h := h.elim
  conserved := by
    change ((([] : List β) : Multiset β) + 0 + (([] : List β) : Multiset β) + 0 + _) = _
    simp [State.start, Phase.rest]

theorem Phase.jobsClosed_of_resultsClosed {a : Phase α} (h : a.ResultsClosed) : a.JobsClosed := by
  cases a with
  | sending rest => exact h
  | joining n => exact trivial
  | draining => exact trivial
  | collecting n => exact trivial
  | returned => exact trivial

/-- A phase that waits for a signal keeps its channels as they are. -/
theorem Phase.Joins.closed {a b : Phase α} (h : a.Joins b) :
    (b.JobsClosed ↔ a.JobsClosed) ∧ a.JobsClosed ∧ (b.ResultsClosed ↔ a.ResultsClosed) ∧
      b.rest = a.rest := by
  cases h with
  | worker => exact ⟨Iff.rfl, trivial, Iff.rfl, rfl⟩
  | collector => exact ⟨Iff.rfl, trivial, Iff.rfl, rfl⟩

theorem Phase.Joins.up {a b : Phase α} (h : a.Joins b) :
    (¬a.ResultsClosed → a.workersUp p = b.workersUp p + 1) ∧
      (a.ResultsClosed → a.collectorsUp = b.collectorsUp + 1) := by
  cases h with
  | worker => exact ⟨fun _ => rfl, fun h => h.elim⟩
  | collector => exact ⟨fun h => (h trivial).elim, fun _ => rfl⟩

/-- No result is lost or made twice by a step. -/
theorem Step.conserved (h : Step p s t) :
    (t.collected + t.collectorsHolding + t.results + t.workersHolding +
      (t.jobs ++ t.main.rest).filterMap p.work : Multiset β) =
        s.collected + s.collectorsHolding + s.results + s.workersHolding +
          (s.jobs ++ s.main.rest).filterMap p.work := by
  cases h with
  | send hmain hcap => simp only [hmain, Phase.rest, List.append_assoc, List.singleton_append]
  | close hmain => simp only [hmain, Phase.rest]
  | discard hjobs hidle hwork =>
    simp only [hjobs, List.cons_append, List.filterMap_cons_none hwork]
  | take hjobs hidle hwork =>
    simp only [hjobs, List.cons_append, List.filterMap_cons_some hwork, ← Multiset.cons_coe,
      Multiset.add_cons, Multiset.cons_add]
  | deliver hholding hcap =>
    rw [hholding, ← Multiset.coe_add, Multiset.coe_singleton, ← Multiset.singleton_add]
    abel
  | workerHandsOver hcap hjoins hleaving | collectorHandsOver hcap hjoins hleaving
  | join hjoins hdone => simp only [hjoins.closed.2.2.2]
  | drain hmain | closeResults hmain hresults | finish hmain => simp only [hmain, Phase.rest]
  | @collect r results k hresults hidle =>
    rw [hresults, ← Multiset.cons_coe, ← Multiset.singleton_add r (results : Multiset β)]
    simp only [← Multiset.singleton_add r s.collectorsHolding]
    abel
  | add hholding =>
    rw [hholding, ← Multiset.coe_add, Multiset.coe_singleton, ← Multiset.singleton_add]
    abel
  | leave hclosed hjobs hidle | workerDone hleaving hcap | quit hclosed hresults hidle
  | collectorDone hleaving hcap => rfl

/-- A worker that is there has not been waited for. -/
theorem Inv.not_resultsClosed (hinv : Inv p all s)
    (h : 0 < s.workersIdle + s.workersHolding.card + s.workersLeaving) :
    ¬s.main.ResultsClosed := by
  intro hclosed
  obtain ⟨hidle, hholding, hleaving⟩ := hinv.workersGone hclosed
  rw [hidle, hholding, hleaving, Multiset.card_zero] at h
  cases h

/-- A collector leaves behind the end of the results. -/
theorem Inv.resultsClosed (hinv : Inv p all s) (h : 0 < s.collectorsLeaving) :
    s.main.ResultsClosed := by
  by_contra hopen
  have hnone := (hinv.collectors hopen).2
  omega

theorem Inv.step (hinv : Inv p all s) (h : Step p s t) : Inv p all t := by
  have hconserved := h.conserved.trans hinv.conserved
  cases h with
  | @send x rest hmain hcap =>
    obtain ⟨main, jobs, wi, wh, wl, results, ci, ch, cl, done, collected⟩ := s
    simp only at hmain
    subst hmain
    exact { hinv with jobsDone := fun h => h.elim, conserved := hconserved }
  | close hmain =>
    obtain ⟨main, jobs, wi, wh, wl, results, ci, ch, cl, done, collected⟩ := s
    simp only at hmain
    subst hmain
    obtain ⟨hleaving, hdone⟩ := hinv.sending id
    have hworkers := hinv.workers id
    simp only [Phase.workersUp] at hworkers hleaving hdone
    refine { hinv with
      sending := fun h => (h trivial).elim
      workers := fun _ => hworkers
      workersGone := fun h => h.elim
      collectorsUp := fun h => h.elim
      jobsDone := fun _ hlt => ?_ }
    simp only at hlt
    omega
  | @discard x jobs hjobs hidle hwork =>
    refine { hinv with jobsDone := fun h hlt => ?_, conserved := hconserved }
    have hnil := hinv.jobsDone h hlt
    rw [hjobs] at hnil
    cases hnil
  | @take x jobs k r hjobs hidle hwork =>
    have hopen := hinv.not_resultsClosed (by omega)
    refine { hinv with
      workers := fun _ => ?_, workersGone := fun h => absurd h hopen,
      jobsDone := fun h hlt => ?_, conserved := hconserved }
    · have hworkers := hinv.workers hopen
      simp only [Multiset.card_cons] at hworkers ⊢
      omega
    · simp only [Multiset.card_cons] at hlt
      have hnil := hinv.jobsDone h (by omega)
      rw [hjobs] at hnil
      cases hnil
  | @deliver r holding hholding hcap =>
    have hcard : s.workersHolding.card = holding.card + 1 := by
      rw [hholding, Multiset.card_cons]
    have hopen := hinv.not_resultsClosed (by omega)
    refine { hinv with
      workers := fun _ => ?_, workersGone := fun h => absurd h hopen,
      collectorsUp := fun h => absurd h hopen, jobsDone := fun h hlt => ?_,
      conserved := hconserved }
    · have hworkers := hinv.workers hopen
      simp only
      omega
    · refine hinv.jobsDone h ?_
      simp only at hlt
      omega
  | @leave k hclosed hjobs hidle =>
    have hopen := hinv.not_resultsClosed (by omega)
    refine { hinv with
      sending := fun h => absurd hclosed h, workers := fun _ => ?_,
      workersGone := fun h => absurd h hopen, jobsDone := fun _ _ => hjobs }
    have hworkers := hinv.workers hopen
    simp only at hworkers ⊢
    omega
  | @workerDone k hleaving hcap =>
    have hopen := hinv.not_resultsClosed (by omega)
    refine { hinv with
      sending := fun h => ?_, workers := fun _ => ?_, workersGone := fun h => absurd h hopen,
      collectorsUp := fun h => absurd h hopen }
    · have hzero := (hinv.sending h).1
      omega
    · have hworkers := hinv.workers hopen
      simp only at hworkers ⊢
      omega
  | @workerHandsOver k main hcap hjoins hleaving =>
    obtain ⟨-, hclosed, hresults, -⟩ := hjoins.closed
    have hopen := hinv.not_resultsClosed (by omega)
    refine ⟨fun h => absurd (hjoins.closed.1.mpr hclosed) h, fun _ => ?_,
      fun h => absurd (hresults.mp h) hopen, fun _ => hinv.collectors hopen,
      fun h => absurd (hresults.mp h) hopen, fun _ => hinv.jobsDone hclosed, hconserved⟩
    have hworkers := hinv.workers hopen
    have hup := (hjoins.up (p := p)).1 hopen
    simp only at hworkers ⊢
    omega
  | @join k main hjoins hdone =>
    obtain ⟨-, hclosed, hresults, -⟩ := hjoins.closed
    refine ⟨fun h => absurd (hjoins.closed.1.mpr hclosed) h, fun h => ?_,
      fun h => hinv.workersGone (hresults.mp h),
      fun h => hinv.collectors fun h' => h (hresults.mpr h'), fun h => ?_,
      fun _ => hinv.jobsDone hclosed, hconserved⟩
    · have hopen : ¬s.main.ResultsClosed := fun h' => h (hresults.mpr h')
      have hworkers := hinv.workers hopen
      have hup := (hjoins.up (p := p)).1 hopen
      simp only at hworkers ⊢
      omega
    · have hcollectors := hinv.collectorsUp (hresults.mp h)
      have hup := (hjoins.up (p := p)).2 (hresults.mp h)
      refine ⟨?_, hcollectors.2⟩
      have hsum := hcollectors.1
      simp only at hsum ⊢
      omega
  | drain hmain =>
    obtain ⟨main, jobs, wi, wh, wl, results, ci, ch, cl, done, collected⟩ := s
    simp only at hmain
    subst hmain
    exact { hinv with
      sending := fun h => (h trivial).elim
      workersGone := fun h => h.elim
      collectorsUp := fun h => h.elim }
  | closeResults hmain hresults =>
    obtain ⟨main, jobs, wi, wh, wl, results, ci, ch, cl, done, collected⟩ := s
    simp only at hmain
    subst hmain
    have hworkers := hinv.workers id
    have hcollectors := hinv.collectors id
    simp only [Phase.workersUp] at hworkers hcollectors hresults
    have hgone : wi = 0 ∧ wh = 0 ∧ wl = 0 :=
      ⟨by omega, Multiset.card_eq_zero.mp (by omega), by omega⟩
    refine { hinv with
      sending := fun h => (h trivial).elim
      workers := fun h => (h trivial).elim
      workersGone := fun _ => hgone
      collectors := fun h => (h trivial).elim
      collectorsUp := fun _ => ⟨?_, hresults⟩ }
    simp only [Phase.collectorsUp]
    omega
  | @collect r results k hresults hidle =>
    refine { hinv with
      collectors := fun h => ?_, collectorsUp := fun h => ?_, conserved := hconserved }
    · have hcollectors := hinv.collectors h
      simp only [Multiset.card_cons] at hcollectors ⊢
      omega
    · have hnil := (hinv.collectorsUp h).2
      rw [hresults] at hnil
      cases hnil
  | @add r holding hholding =>
    refine { hinv with
      collectors := fun h => ?_, collectorsUp := fun h => ?_, conserved := hconserved }
    · have hcollectors := hinv.collectors h
      rw [hholding, Multiset.card_cons] at hcollectors
      simp only
      omega
    · have hcollectors := hinv.collectorsUp h
      rw [hholding, Multiset.card_cons] at hcollectors
      refine ⟨?_, hcollectors.2⟩
      have hsum := hcollectors.1
      simp only
      omega
  | @quit k hclosed hresults hidle =>
    refine { hinv with
      collectors := fun h => absurd hclosed h, collectorsUp := fun h => ?_ }
    have hcollectors := hinv.collectorsUp h
    refine ⟨?_, hresults⟩
    have hsum := hcollectors.1
    simp only at hsum ⊢
    omega
  | @collectorDone k hleaving hcap =>
    have hclosed := hinv.resultsClosed (by omega)
    refine { hinv with
      sending := fun h => absurd (Phase.jobsClosed_of_resultsClosed hclosed) h
      workers := fun h => absurd hclosed h
      collectors := fun h => absurd hclosed h
      collectorsUp := fun h => ⟨?_, (hinv.collectorsUp h).2⟩ }
    have hsum := (hinv.collectorsUp h).1
    simp only at hsum ⊢
    omega
  | @collectorHandsOver k main hcap hjoins hleaving =>
    obtain ⟨-, hjobs, hresults, -⟩ := hjoins.closed
    have hclosed := hinv.resultsClosed (by omega)
    refine ⟨fun h => absurd (hjoins.closed.1.mpr hjobs) h,
      fun h => absurd (hresults.mpr hclosed) h, fun _ => hinv.workersGone hclosed,
      fun h => absurd (hresults.mpr hclosed) h, fun _ => ⟨?_, (hinv.collectorsUp hclosed).2⟩,
      fun _ => hinv.jobsDone hjobs, hconserved⟩
    have hsum := (hinv.collectorsUp hclosed).1
    have hup := (hjoins.up (p := p)).2 hclosed
    simp only at hsum ⊢
    omega
  | finish hmain =>
    obtain ⟨main, jobs, wi, wh, wl, results, ci, ch, cl, done, collected⟩ := s
    simp only at hmain
    subst hmain
    exact { hinv with
      sending := fun h => (h trivial).elim
      workers := fun h => (h trivial).elim
      collectors := fun h => (h trivial).elim }

theorem Reaches.inv (h : Reaches p all n s) : Inv p all s := by
  induction h with
  | start => exact inv_start
  | step _ hstep ih => exact ih.step hstep

end Invariant

end Fluffi.Systems.Pipeline
