import Fluffi.GlobalManager.RegisterAtGM

/-! The fuzzjob that a user assigns to a worker. The user writes it into the row of the
worker, and the next request of the worker looks for the local manager of that fuzzjob.
Every handler that does not end with a local manager replaces the row by one without a
fuzzjob. -/

namespace Fluffi.GlobalManager

open Shared Systems

variable {w : String} {f : ℕ}

/-- `workers.FuzzJob` of the worker is `f`. -/
def GMDatabase.AssignedTo (db : GMDatabase) (w : String) (f : ℕ) : Prop :=
  ∃ row ∈ db.workers.rows, row.ServiceDescriptorGUID = w ∧ row.FuzzJob = some f

instance (db : GMDatabase) (w : String) (f : ℕ) : Decidable (db.AssignedTo w f) :=
  inferInstanceAs (Decidable (∃ row ∈ db.workers.rows, _))

/-- Where the handler of a worker can be that has not decided against a local manager. -/
def Point.Undecided : Point → Prop
  | .getLMServiceDescriptorForWorker | .agentIsWelcomedAt _ | .responded _ _ => True
  | _ => False

def isWorker : AgentType → Bool
  | .TestcaseGenerator | .TestcaseRunner | .TestcaseEvaluator => true
  | _ => false

namespace GMState

/-- The worker has sent no request for the cleanup period. -/
def Silent (s : GMState) (w : String) : Prop :=
  ∀ task ∈ s.tasks, task.guid = w → task.arrival + 60 * 1 < s.now

/-- A step that ends the assignment: the local manager of `f` has answered whether the
worker is welcome, and the worker is told to go there or is sent away, or the monitor
cleans up and the worker has been silent. -/
def Releases (w : String) (f : ℕ) (s : GMState) : GMEvent → Prop
  | .turn i (.exchange (.iswelcomed _)) => ∃ task lm, s.tasks[i]? = some task ∧
      task.guid = w ∧ task.point = .agentIsWelcomedAt lm ∧ lm.FuzzJob = f
  | .deleteWorkersNotSeenSinceXSec _ => s.Silent w
  | _ => False

/-- What a turn of a handler for the worker needs: its lookup is answered with a local
manager, and so is its question, where only the local manager of `f` may send the worker
away. -/
def Finds (f : ℕ) (db : GMDatabase) (task : Task) : Turn → Prop
  | .statement execution _ => task.point = .getLMServiceDescriptorForWorker →
      execution = .executed ∧
        db.getLMServiceDescriptorForWorker task.request.serviceDescriptor ≠ none
  | .exchange answer => ∀ lm, task.point = .agentIsWelcomedAt lm →
      answer = .iswelcomed true ∨ answer = .iswelcomed false ∧ lm.FuzzJob = f

/-- What a step needs: the request comes from a worker, its handlers find the local
manager, the monitor only cleans up after silence, and the user does not change the
assignment. -/
def Respects (w : String) (f : ℕ) (s : GMState) : GMEvent → Prop
  | .request request => request.serviceDescriptor.m_guid = w → isWorker request.type = true
  | .turn i turn => ∀ task, s.tasks[i]? = some task → task.guid = w → Finds f s.db task turn
  | .deleteWorkersNotSeenSinceXSec execution => execution ≠ .refused →
      (∃ row ∈ s.db.workers.rows, row.ServiceDescriptorGUID = w ∧
        row.TimeOfLastRequest + 60 * 1 < s.now) → s.Silent w
  | .web (.assignWorker guid fuzzjob) => guid = w → fuzzjob = f
  | _ => True

/-- The assignment holds and no handler of the worker is about to replace its row. -/
structure Held (w : String) (f : ℕ) (s : GMState) : Prop where
  assigned : s.db.AssignedTo w f
  undecided : ∀ task ∈ s.tasks, task.guid = w → task.point.Undecided

variable {s t : GMState} {e : GMEvent}

/-! ### The row of a worker -/

section Rows

variable {db db' : GMDatabase} {task : Task} {now : ℕ} {turn : Turn} {point : Point}

theorem assigned_of_workers (h : db'.workers = db.workers) (ha : db.AssignedTo w f) :
    db'.AssignedTo w f := by
  unfold GMDatabase.AssignedTo
  rwa [h]

theorem assigned_removeWorker {fsd : FluffiServiceDescriptor} (hne : fsd.m_guid ≠ w)
    (ha : db.AssignedTo w f) : (db.removeWorkerFromDatabase fsd).AssignedTo w f := by
  obtain ⟨row, hrow, hguid, hjob⟩ := ha
  refine ⟨row, Table.mem_delete.mpr ⟨hrow, ?_⟩, hguid, hjob⟩
  rw [decide_eq_false_iff_not, hguid]
  exact hne.symm

theorem assigned_addWorker {fsd : FluffiServiceDescriptor} {type : AgentType}
    {subtypes location : String} (hne : fsd.m_guid ≠ w) (ha : db.AssignedTo w f) :
    ((db.addWorkerToDatabase fsd type subtypes location now).getD db).AssignedTo w f := by
  unfold GMDatabase.addWorkerToDatabase
  cases db.locationID location with
  | none => exact ha
  | some loc =>
    obtain ⟨row, hrow, hguid, hjob⟩ := ha
    refine ⟨row, Table.mem_replace.mpr (.inl ⟨hrow, fun hclash => hne ?_⟩), hguid, hjob⟩
    exact hclash.symm.trans hguid

/-- The statements of a handler for another worker leave the row. -/
theorem assigned_of_turns_ne (h : task.Turns db now turn db' point) (hne : task.guid ≠ w)
    (ha : db.AssignedTo w f) : db'.AssignedTo w f := by
  cases h with
  | removed _ =>
    split
    · exact ha
    · exact assigned_removeWorker hne ha
  | added _ =>
    split
    · exact ha
    · exact assigned_addWorker hne ha
  | listed _ h | listedUnanswered _ h =>
    obtain ⟨loc, _, h⟩ := Option.bind_eq_some_iff.mp h
    split at h
    · obtain ⟨localmanagers, _, rfl⟩ := Option.map_eq_some_iff.mp h
      exact assigned_of_workers rfl ha
    · cases h
  | _ => exact ha

theorem assignedTo_assignWorker
    (h : ∃ row ∈ db.workers.rows, row.ServiceDescriptorGUID = w) :
    (db.assignWorker w f).AssignedTo w f := by
  obtain ⟨row, hrow, hguid⟩ := h
  refine ⟨GMDatabase.withFuzzJob w f row,
    GMDatabase.mem_assignWorker.mpr ⟨row, hrow, rfl⟩, ?_, ?_⟩
  · rw [GMDatabase.withFuzzJob_guid, hguid]
  · rw [GMDatabase.withFuzzJob, if_pos hguid]

/-- Users write to other rows, or write the same fuzzjob again. -/
theorem assigned_web {statement : GMDatabase.WebStatement} (h : db.web statement = some db')
    (hsame : ∀ guid fuzzjob, statement = .assignWorker guid fuzzjob → guid = w → fuzzjob = f)
    (ha : db.AssignedTo w f) : db'.AssignedTo w f := by
  cases statement with
  | createLocation row | createFuzzjob row =>
    obtain ⟨_, _, rfl⟩ := Option.map_eq_some_iff.mp h
    exact assigned_of_workers rfl ha
  | addProjectLocation row =>
    rw [GMDatabase.web] at h
    split at h
    · obtain ⟨_, _, rfl⟩ := Option.map_eq_some_iff.mp h
      exact assigned_of_workers rfl ha
    · cases h
  | removeProjectLocation row =>
    cases h
    exact assigned_of_workers rfl ha
  | assignWorker guid fuzzjob =>
    cases h
    obtain ⟨row, hrow, hguid, hjob⟩ := ha
    refine ⟨GMDatabase.withFuzzJob guid fuzzjob row,
      GMDatabase.mem_assignWorker.mpr ⟨row, hrow, rfl⟩, ?_, ?_⟩
    · rw [GMDatabase.withFuzzJob_guid, hguid]
    · unfold GMDatabase.withFuzzJob
      split
      · rename_i hthis
        exact congrArg some (hsame guid fuzzjob rfl (hthis.symm.trans hguid))
      · exact hjob

/-- A turn for the worker that finds its local manager changes no table, and the handler
stays undecided unless the step releases the worker. -/
theorem undecided_of_turns (h : task.Turns db now turn db' point) (hp : task.point.Undecided)
    (hfinds : Finds f db task turn)
    (hheld : ∀ v lm, turn = .exchange (.iswelcomed v) → task.point = .agentIsWelcomedAt lm →
      lm.FuzzJob ≠ f) : db' = db ∧ point.Undecided := by
  cases h with
  | found _ _ => exact ⟨rfl, trivial⟩
  | notFound hpoint h =>
    obtain ⟨hexecuted, hsome⟩ := hfinds hpoint
    exact absurd (h hexecuted) hsome
  | welcomed _ => exact ⟨rfl, trivial⟩
  | notWelcomed hpoint h =>
    rcases hfinds _ hpoint with hanswer | ⟨rfl, hjob⟩
    · exact absurd hanswer h
    · exact absurd hjob (hheld false _ rfl hpoint)
  | removed hpoint | added hpoint | candidate hpoint _ | noCandidate hpoint
  | configuration hpoint _ | noConfiguration hpoint | listed hpoint _
  | listedUnanswered hpoint _ | notListed hpoint =>
    rw [hpoint] at hp
    exact hp.elim

end Rows

/-! ### Runs -/

theorem begin_undecided {request : RegisterAtGMRequest} (h : isWorker request.type = true)
    (arrival : ℕ) : (Task.begin request arrival).point.Undecided := by
  unfold Task.begin
  cases htype : request.type <;> simp_all [isWorker, Point.Undecided]

/-- A step that respects the assignment and does not release the worker keeps it. -/
theorem Held.next (hs : Held w f s) (hrespects : Respects w f s e) (hheld : ¬Releases w f s e)
    (h : s.next e = some t) : Held w f t := by
  obtain ⟨hassigned, hundecided⟩ := hs
  cases e with
  | request request =>
    cases h
    refine ⟨hassigned, ?_⟩
    rw [List.forall_mem_append, List.forall_mem_singleton]
    exact ⟨hundecided, fun hguid => begin_undecided (hrespects hguid) _⟩
  | turn i turn =>
    obtain ⟨task, db, point, htask, hturn, rfl⟩ := next_turn h
    by_cases hguid : task.guid = w
    · have hreleases : ∀ v lm, turn = .exchange (.iswelcomed v) →
          task.point = .agentIsWelcomedAt lm → lm.FuzzJob ≠ f := by
        rintro v lm rfl hpoint hjob
        exact hheld ⟨task, lm, htask, hguid, hpoint, hjob⟩
      obtain ⟨rfl, hpoint⟩ := undecided_of_turns hturn
        (hundecided task (List.mem_of_getElem? htask) hguid) (hrespects task htask hguid) hreleases
      refine ⟨hassigned, fun other hother hguid => ?_⟩
      rcases List.mem_or_eq_of_mem_set hother with hother | rfl
      · exact hundecided other hother hguid
      · exact hpoint
    · refine ⟨assigned_of_turns_ne hturn hguid hassigned, fun other hother hother' => ?_⟩
      rcases List.mem_or_eq_of_mem_set hother with hother | rfl
      · exact hundecided other hother hother'
      · exact absurd hother' hguid
  | tick n =>
    cases h
    exact ⟨hassigned, hundecided⟩
  | removeManagedLM guid =>
    cases h
    exact ⟨hassigned, hundecided⟩
  | deleteWorkersNotSeenSinceXSec execution =>
    cases h
    split
    · exact ⟨hassigned, hundecided⟩
    · rename_i hexecution
      refine ⟨?_, hundecided⟩
      obtain ⟨row, hrow, hguid, hjob⟩ := hassigned
      refine ⟨row, Table.mem_delete.mpr ⟨hrow, decide_eq_false fun hold => ?_⟩, hguid, hjob⟩
      exact hheld (hrespects hexecution ⟨row, hrow, hguid, hold⟩)
  | web statement =>
    obtain ⟨db, hdb, rfl⟩ := Option.map_eq_some_iff.mp h
    refine ⟨assigned_web hdb ?_ hassigned, hundecided⟩
    rintro guid fuzzjob rfl
    exact hrespects

/-- The user's assignment holds until it is released, in every run whose steps respect it. -/
theorem assignment_kept {tr : List (GMState × GMEvent)} {u : GMState}
    (hrow : ∃ row ∈ s.db.workers.rows, row.ServiceDescriptorGUID = w)
    (hundecided : ∀ task ∈ s.tasks, task.guid = w → task.point.Undecided)
    (hrun : Run next s ((s, .web (.assignWorker w f)) :: tr) u)
    (hrespects : ∀ p ∈ tr, Respects w f p.1 p.2)
    (hheld : ∀ p ∈ tr, ¬Releases w f p.1 p.2) : u.db.AssignedTo w f := by
  obtain ⟨_, t, hassign, hrun⟩ := hrun.cons_inv
  cases hassign
  have hstart : Held w f { s with db := s.db.assignWorker w f } :=
    ⟨assignedTo_assignWorker hrow, hundecided⟩
  have hheld := hrun.history (G := fun s e => Respects w f s e ∧ ¬Releases w f s e)
    (I := fun _ s => Held w f s) (fun p hp => ⟨hrespects p hp, hheld p hp⟩) hstart
    fun hs hG hnext => hs.next hG.1 hG.2 hnext
  exact hheld.assigned

/-- A handler that has decided otherwise takes the fuzzjob away, whatever it is by then. -/
theorem lost_of_addWorker {db db' : GMDatabase} {task : Task} {now choice loc : ℕ} {point : Point}
    (h : task.Turns db now (.statement .executed choice) db' point)
    (hp : task.point = .addWorkerToDatabase)
    (hloc : db.locationID task.request.location = some loc) : ¬db'.AssignedTo task.guid f := by
  cases h with
  | added _ =>
    rintro ⟨row, hrow, hguid, hjob⟩
    simp only [reduceCtorEq, if_false, GMDatabase.addWorkerToDatabase, hloc, Option.map_some,
      Option.getD_some, Table.mem_replace] at hrow
    rcases hrow with ⟨_, hother⟩ | rfl
    · exact hother hguid
    · cases hjob
  | _ => simp_all

/-- A worker that waits at a location where no local manager has the fuzzjob yet. -/
def waitingDatabase : GMDatabase where
  locations := .singleton ⟨1, "A"⟩
  fuzzjob := .singleton ⟨7, ⟨"db", "user", "pass", "fluffi_job", "job"⟩⟩
  location_fuzzjobs := .singleton ⟨1, 7⟩
  localmanagers := .empty
  workers := .singleton ⟨"tr", "host", none, 1, 0, .TestcaseRunner, ""⟩

def workerRequest : RegisterAtGMRequest := ⟨.TestcaseRunner, [], ⟨"host", "tr"⟩, "A"⟩

/-- With the local manager listed, the assignment is kept until that one answers. -/
def managedDatabase : GMDatabase :=
  { waitingDatabase with localmanagers := .singleton ⟨"lm", "lmhost", 1, 7⟩ }

theorem assignment_kept_managed :
    ∃ tr u, Run next ⟨managedDatabase, 0, []⟩ tr u ∧ tr.length = 5 ∧ u.db.AssignedTo "tr" 7 := by
  have hrun : exec next ⟨managedDatabase, 0, []⟩ [.web (.assignWorker "tr" 7),
      .request workerRequest, .tick 30, .deleteWorkersNotSeenSinceXSec .executed,
      .turn 0 (.statement .executed 0)] = some (_ :: _, _) := rfl
  refine ⟨_, _, run_of_exec hrun, rfl, ?_⟩
  refine assignment_kept ⟨_, List.mem_singleton_self _, rfl⟩ (by simp) (run_of_exec hrun) ?_ ?_
  · simp only [List.forall_mem_cons]
    refine ⟨fun _ => rfl, trivial, fun _ hold => ?_, ?_, by simp⟩
    · obtain ⟨row, hrow, _, hold⟩ := hold
      obtain rfl := List.mem_singleton.mp hrow
      exact absurd hold (by decide)
    · rintro task htask _ _
      obtain rfl := Option.some.inj htask
      exact ⟨rfl, by decide⟩
  · simp only [List.forall_mem_cons]
    refine ⟨id, id, fun hsilent => ?_, id, by simp⟩
    exact absurd (hsilent _ (List.mem_singleton_self _) rfl) (by decide)

/-- No local manager of the fuzzjob is there yet when the worker asks: its row loses the
fuzzjob although nobody has answered it. -/
theorem waiting_assignment_lost :
    ¬∀ tr u, Run next ⟨waitingDatabase, 0, []⟩
        ((⟨waitingDatabase, 0, []⟩, .web (.assignWorker "tr" 7)) :: tr) u →
      (∀ p ∈ tr, ¬Releases "tr" 7 p.1 p.2) → u.db.AssignedTo "tr" 7 := by
  intro h
  have hrun : exec next ⟨waitingDatabase, 0, []⟩ [.web (.assignWorker "tr" 7),
      .request workerRequest, .turn 0 (.statement .executed 0),
      .turn 0 (.statement .executed 0)] = some (_ :: _, _) := rfl
  have hlost := h _ _ (run_of_exec hrun) (by simp [Releases])
  revert hlost
  decide

end GMState

end Fluffi.GlobalManager
