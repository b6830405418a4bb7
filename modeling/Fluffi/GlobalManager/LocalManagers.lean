import Fluffi.GlobalManager.RegisterAtGM

/-! Which local manager gets which fuzzjob. The handler looks for a fuzzjob without a
local manager, puts its configuration into the response and only then inserts the local
manager. Two handlers may find the same fuzzjob; the keys of `localmanagers` and the
exception of the failed insert decide between them. The keys also decide against a
local manager that is listed already and asks again. -/

namespace Fluffi.GlobalManager

open Shared Systems

/-- What the tables promise to a handler: rows of `localmanagers` stay, and so do
configurations and the IDs of locations. -/
structure GMDatabase.Extends (db db' : GMDatabase) : Prop where
  localmanagers : ∀ row ∈ db.localmanagers.rows, row ∈ db'.localmanagers.rows
  configuration : ∀ f c, db.getLMConfigurationForFuzzJob f = some c →
    db'.getLMConfigurationForFuzzJob f = some c
  locationID : ∀ name loc, db.locationID name = some loc → db'.locationID name = some loc

/-- The row that lists a local manager for a fuzzjob at the location of its request. -/
def GMDatabase.Lists (db : GMDatabase) (request : RegisterAtGMRequest) (row : LocalManagerRow) :
    Prop :=
  row ∈ db.localmanagers.rows ∧ row.ServiceDescriptorGUID = request.serviceDescriptor.m_guid ∧
    db.locationID request.location = some row.Location

/-- A handler that holds a configuration has read it, and one that has sent it has
inserted the row. -/
def Task.Supported (db : GMDatabase) (task : Task) : Prop :=
  match task.point with
  | .setLMForLocationAndFuzzJob f configuration =>
    db.getLMConfigurationForFuzzJob f = some configuration
  | .responded fuzzjob (.lmConfiguration configuration) =>
    ∃ row, db.Lists task.request row ∧ fuzzjob = some row.FuzzJob ∧
      db.getLMConfigurationForFuzzJob row.FuzzJob = some configuration
  | _ => True

/-- The request of a local manager does not get to the statements for other workers. -/
def Task.OnBranch (task : Task) : Prop :=
  task.request.type = .LocalManager →
    match task.point with
    | .getLMServiceDescriptorForWorker | .agentIsWelcomedAt _ | .removeWorkerFromDatabase => False
    | .responded _ response => response = .retryLater true ∨ ∃ c, response = .lmConfiguration c
    | _ => True

section Turn

variable {db db' : GMDatabase} {task : Task} {now : ℕ} {turn : Turn} {point : Point}

theorem GMDatabase.Extends.refl (db : GMDatabase) : db.Extends db :=
  ⟨fun _ h => h, fun _ _ h => h, fun _ _ h => h⟩

theorem Task.Supported.mono (h : task.Supported db) (hdb : db.Extends db') :
    task.Supported db' := by
  unfold Task.Supported at h ⊢
  split at h
  · exact hdb.configuration _ _ h
  · obtain ⟨row, ⟨hrow, hguid, hlocation⟩, hfuzzjob, hconfiguration⟩ := h
    exact ⟨row, ⟨hdb.localmanagers row hrow, hguid, hdb.locationID _ _ hlocation⟩, hfuzzjob,
      hdb.configuration _ _ hconfiguration⟩
  · trivial

/-- A successful insert adds the row to the tables that were there. -/
theorem setLM_eq_some {location : String} {fsd : FluffiServiceDescriptor} {f : ℕ}
    (h : db.setLMForLocationAndFuzzJob location fsd f = some db') :
    ∃ loc, db.locationID location = some loc ∧
      (∀ r ∈ db.localmanagers.rows,
        ¬r.Clash ⟨fsd.m_guid, fsd.m_serviceHostAndPort, loc, f⟩) ∧
      db'.localmanagers.rows =
        db.localmanagers.rows ++ [⟨fsd.m_guid, fsd.m_serviceHostAndPort, loc, f⟩] ∧
      db' = { db with localmanagers := db'.localmanagers } := by
  obtain ⟨loc, hloc, h⟩ := Option.bind_eq_some_iff.mp h
  split at h
  · obtain ⟨localmanagers, hinsert, rfl⟩ := Option.map_eq_some_iff.mp h
    obtain ⟨hfree, hrows⟩ := Table.insert_eq_some_iff.mp hinsert
    exact ⟨loc, hloc, hfree, hrows, rfl⟩
  · cases h

theorem extends_of_setLM {location : String} {fsd : FluffiServiceDescriptor} {f : ℕ}
    (h : db.setLMForLocationAndFuzzJob location fsd f = some db') : db.Extends db' := by
  obtain ⟨loc, _, _, hrows, hdb⟩ := setLM_eq_some h
  refine ⟨fun row hrow => ?_, fun f c hc => ?_, fun name l hl => ?_⟩
  · rw [hrows]
    exact List.mem_append_left _ hrow
  · rw [hdb]
    exact hc
  · rw [hdb]
    exact hl

/-- No turn takes a local manager from its fuzzjob. -/
theorem Task.Turns.extends (h : task.Turns db now turn db' point) : db.Extends db' := by
  cases h with
  | listed hp h => exact extends_of_setLM h
  | listedUnanswered hp h => exact extends_of_setLM h
  | removed hp =>
    split
    · exact .refl db
    · exact ⟨fun _ h => h, fun _ _ h => h, fun _ _ h => h⟩
  | added hp =>
    split
    · exact .refl db
    · unfold GMDatabase.addWorkerToDatabase
      cases db.locationID task.request.location with
      | none => exact .refl db
      | some loc => exact ⟨fun _ h => h, fun _ _ h => h, fun _ _ h => h⟩
  | _ => exact .refl db

theorem Task.Turns.supported (h : task.Turns db now turn db' point) (hs : task.Supported db) :
    (task.goto point).Supported db' := by
  cases h with
  | configuration hp h => exact h
  | @listed _ f c _ hp h =>
    obtain ⟨loc, hloc, _, hrows, _⟩ := setLM_eq_some h
    have hextends := extends_of_setLM h
    have hconfiguration : db.getLMConfigurationForFuzzJob f = some c := by
      unfold Task.Supported at hs
      rwa [hp] at hs
    refine ⟨⟨task.request.serviceDescriptor.m_guid,
      task.request.serviceDescriptor.m_serviceHostAndPort, loc, f⟩,
      ⟨?_, rfl, hextends.locationID _ _ hloc⟩, rfl, hextends.configuration f c hconfiguration⟩
    rw [hrows]
    exact List.mem_append_right _ (List.mem_singleton_self _)
  | _ => trivial

theorem Task.Turns.onBranch (h : task.Turns db now turn db' point) (hbranch : task.OnBranch) :
    (task.goto point).OnBranch := by
  intro htype
  have hbranch := hbranch htype
  cases h <;> simp_all [Task.goto]

end Turn

/-! ### All interleavings -/

namespace GMState

variable {s t : GMState} {e : GMEvent}

/-- No row of `localmanagers` is removed. -/
def KeepsLocalManagers (s : GMState) (e : GMEvent) : Prop :=
  ∀ t, s.next e = some t → ∀ row ∈ s.db.localmanagers.rows, row ∈ t.db.localmanagers.rows

/-- The events of the handlers. -/
def ofHandler : GMEvent → Bool
  | .request _ | .turn _ _ => true
  | _ => false

/-- Handlers remove no local manager. -/
theorem keepsLocalManagers_of_handler (h : ofHandler e = true) : s.KeepsLocalManagers e := by
  intro t hnext
  cases e with
  | request req =>
    cases hnext
    exact fun _ h => h
  | turn i turn =>
    obtain ⟨task, db, point, _, hturn, rfl⟩ := next_turn hnext
    exact hturn.extends.localmanagers
  | _ => cases h

/-- The state of the handlers is what the tables support. -/
def AllSupported (s : GMState) : Prop :=
  ∀ task ∈ s.tasks, task.Supported s.db ∧ task.OnBranch

theorem web_extends {db db' : GMDatabase} {statement : GMDatabase.WebStatement}
    (h : db.web statement = some db')
    (hkept : ∀ row ∈ db.localmanagers.rows, row ∈ db'.localmanagers.rows) : db.Extends db' := by
  cases statement with
  | createLocation row =>
    obtain ⟨locations, hinsert, rfl⟩ := Option.map_eq_some_iff.mp h
    obtain ⟨_, hrows⟩ := Table.insert_eq_some_iff.mp hinsert
    refine ⟨hkept, fun _ _ h => h, fun name loc hloc => ?_⟩
    obtain ⟨found, hfound, hID⟩ := Option.map_eq_some_iff.mp hloc
    unfold GMDatabase.locationID
    rw [hrows, List.find?_append, hfound]
    exact congrArg some hID
  | createFuzzjob row =>
    obtain ⟨fuzzjob, hinsert, rfl⟩ := Option.map_eq_some_iff.mp h
    obtain ⟨hfree, hrows⟩ := Table.insert_eq_some_iff.mp hinsert
    refine ⟨hkept, fun f c hc => ?_, fun _ _ h => h⟩
    unfold GMDatabase.getLMConfigurationForFuzzJob at hc ⊢
    rw [hrows, List.filter_append]
    split at hc
    · rename_i found hfound
      have hmem := List.mem_filter.mp (hfound ▸ List.mem_singleton_self found)
      have hne : row.ID ≠ f := by
        intro heq
        refine hfree found hmem.1 ?_
        rw [FuzzjobRow.Clash, heq]
        simpa using hmem.2
      rw [hfound, List.filter_cons_of_neg (by simpa using hne)]
      exact hc
    · cases hc
  | addProjectLocation row =>
    rw [GMDatabase.web] at h
    split at h
    · obtain ⟨location_fuzzjobs, _, rfl⟩ := Option.map_eq_some_iff.mp h
      exact ⟨hkept, fun _ _ h => h, fun _ _ h => h⟩
    · cases h
  | removeProjectLocation row =>
    cases h
    exact ⟨hkept, fun _ _ h => h, fun _ _ h => h⟩
  | assignWorker guid f =>
    cases h
    exact ⟨hkept, fun _ _ h => h, fun _ _ h => h⟩

theorem next_extends (h : s.next e = some t) (hkept : s.KeepsLocalManagers e) :
    s.db.Extends t.db := by
  have hkept := hkept t h
  cases e with
  | request req =>
    cases h
    exact .refl _
  | turn i turn =>
    obtain ⟨task, db, point, _, hturn, rfl⟩ := next_turn h
    exact hturn.extends
  | tick n =>
    cases h
    exact .refl _
  | removeManagedLM guid =>
    cases h
    exact ⟨hkept, fun _ _ h => h, fun _ _ h => h⟩
  | deleteWorkersNotSeenSinceXSec execution =>
    cases h
    split
    · exact .refl _
    · exact ⟨fun _ h => h, fun _ _ h => h, fun _ _ h => h⟩
  | web statement =>
    obtain ⟨db, hdb, rfl⟩ := Option.map_eq_some_iff.mp h
    exact web_extends hdb hkept

theorem begin_supported (db : GMDatabase) (request : RegisterAtGMRequest) (now : ℕ) :
    (Task.begin request now).Supported db ∧ (Task.begin request now).OnBranch := by
  unfold Task.begin Task.Supported Task.OnBranch
  cases request.type <;> simp

theorem AllSupported.next (hs : s.AllSupported) (hkept : s.KeepsLocalManagers e)
    (h : s.next e = some t) : t.AllSupported := by
  have hextends := next_extends h hkept
  have hstill : ∀ task ∈ s.tasks, task.Supported t.db ∧ task.OnBranch :=
    fun task htask => ⟨(hs task htask).1.mono hextends, (hs task htask).2⟩
  cases e with
  | request req =>
    cases h
    unfold AllSupported
    rw [List.forall_mem_append, List.forall_mem_singleton]
    exact ⟨hstill, begin_supported _ _ _⟩
  | turn i turn =>
    obtain ⟨task, db, point, htask, hturn, rfl⟩ := next_turn h
    intro other hother
    rcases List.mem_or_eq_of_mem_set hother with hother | rfl
    · exact hstill other hother
    · obtain ⟨hsupported, hbranch⟩ := hs task (List.mem_of_getElem? htask)
      exact ⟨hturn.supported hsupported, hturn.onBranch hbranch⟩
  | tick n =>
    cases h
    exact hstill
  | removeManagedLM guid =>
    cases h
    exact hstill
  | deleteWorkersNotSeenSinceXSec execution =>
    cases h
    revert hstill
    split
    · exact fun h => h
    · exact fun h => h
  | web statement =>
    obtain ⟨db, hdb, rfl⟩ := Option.map_eq_some_iff.mp h
    exact hstill

/-- The global manager before the first request. -/
def start (db : GMDatabase) : GMState := ⟨db, 0, []⟩

end GMState

/-- A local manager was answered without `retryLater` by a handler that had got `f` from
`getFuzzJobWithoutLM`. -/
def Task.Assigned (task : Task) (f : ℕ) : Prop :=
  task.request.type = .LocalManager ∧
    ∃ response, response ≠ .retryLater true ∧ task.point = .responded (some f) response

namespace GMState

variable {s : GMState} {e : GMEvent}

/-- An answer without `retryLater` carries the configuration of the fuzzjob under which
the local manager is listed. -/
theorem AllSupported.listed (hs : s.AllSupported) {task : Task} (htask : task ∈ s.tasks)
    {fuzzjob : Option ℕ} {response : RegisterAtGMResponse}
    (htype : task.request.type = .LocalManager) (hp : task.point = .responded fuzzjob response)
    (hresponse : response ≠ .retryLater true) :
    ∃ row configuration, s.db.Lists task.request row ∧ fuzzjob = some row.FuzzJob ∧
      response = .lmConfiguration configuration ∧
      s.db.getLMConfigurationForFuzzJob row.FuzzJob = some configuration := by
  obtain ⟨hsupported, hbranch⟩ := hs task htask
  have hbranch := hbranch htype
  unfold Task.Supported at hsupported
  rw [hp] at hsupported hbranch
  obtain ⟨configuration, rfl⟩ := hbranch.resolve_left hresponse
  obtain ⟨row, hrow, hfuzzjob, hconfiguration⟩ := hsupported
  exact ⟨row, configuration, hrow, hfuzzjob, rfl, hconfiguration⟩

theorem AllSupported.assigned (hs : s.AllSupported) {task : Task} (htask : task ∈ s.tasks) {f : ℕ}
    (h : task.Assigned f) : ∃ row, s.db.Lists task.request row ∧ row.FuzzJob = f := by
  obtain ⟨htype, response, hresponse, hp⟩ := h
  obtain ⟨row, _, hrow, hfuzzjob, _⟩ := hs.listed htask htype hp hresponse
  exact ⟨row, hrow, (Option.some.inj hfuzzjob).symm⟩

theorem assignment_unique {db : GMDatabase} {tr : List (GMState × GMEvent)}
    (hrun : Run next (start db) tr s) (hkept : ∀ p ∈ tr, p.1.KeepsLocalManagers p.2) :
    (∀ a ∈ s.tasks, ∀ b ∈ s.tasks, ∀ f, a.Assigned f → b.Assigned f →
      a.request.location = b.request.location → a.guid = b.guid) ∧
    (∀ a ∈ s.tasks, ∀ b ∈ s.tasks, ∀ f g, a.Assigned f → b.Assigned g →
      a.guid = b.guid → f = g) ∧
    ∀ a ∈ s.tasks, ∀ fuzzjob response, a.request.type = .LocalManager →
      a.point = .responded fuzzjob response → response ≠ .retryLater true →
        ∃ row configuration, s.db.Lists a.request row ∧ fuzzjob = some row.FuzzJob ∧
          response = .lmConfiguration configuration ∧
          s.db.getLMConfigurationForFuzzJob row.FuzzJob = some configuration := by
  have hs : s.AllSupported :=
    (hrun.invariant_mem hkept (by simp [AllSupported, start]) AllSupported.next).1
  refine ⟨fun a ha b hb f hfa hfb hlocation => ?_, fun a ha b hb f g hfa hgb hguid => ?_,
    fun a ha fuzzjob response htype hp hresponse => hs.listed ha htype hp hresponse⟩
  · obtain ⟨rowA, ⟨hA, hguidA, hlocA⟩, hjobA⟩ := hs.assigned ha hfa
    obtain ⟨rowB, ⟨hB, hguidB, hlocB⟩, hjobB⟩ := hs.assigned hb hfb
    have hloc : rowA.Location = rowB.Location :=
      Option.some.inj (hlocA.symm.trans (hlocation ▸ hlocB))
    have hrow : rowA = rowB := Table.eq_of_clash LocalManagerRow.clash_symm hA hB
      (.inr ⟨hloc, hjobA.trans hjobB.symm⟩)
    exact hguidA.symm.trans (hrow ▸ hguidB)
  · obtain ⟨rowA, ⟨hA, hguidA, _⟩, hjobA⟩ := hs.assigned ha hfa
    obtain ⟨rowB, ⟨hB, hguidB, _⟩, hjobB⟩ := hs.assigned hb hgb
    have hrow : rowA = rowB := Table.eq_of_clash LocalManagerRow.clash_symm hA hB
      (.inl (hguidA.trans (hguid.trans hguidB.symm)))
    exact hjobA.symm.trans (hrow ▸ hjobB)

/-- A location with one fuzzjob, for which two local managers ask at the same time. -/
def raceDatabase : GMDatabase where
  locations := .singleton ⟨1, "A"⟩
  fuzzjob := .singleton ⟨7, ⟨"db", "user", "pass", "fluffi_job", "job"⟩⟩
  location_fuzzjobs := .singleton ⟨1, 7⟩
  localmanagers := .empty
  workers := .empty

def lmRequest (guid : String) : RegisterAtGMRequest := ⟨.LocalManager, [], ⟨"host", guid⟩, "A"⟩

def raceEvents : List GMEvent :=
  [.request (lmRequest "lm1"), .request (lmRequest "lm2")] ++
    ([0, 1, 0, 1, 1, 0].map fun i => .turn i (.statement .executed 0))

def raceRun : List (GMState × GMEvent) × GMState :=
  (exec next (start raceDatabase) raceEvents).getD ([], start raceDatabase)

theorem assignment_unique_race :
    (raceRun.2.tasks.map (·.point) =
      [.responded (some 7) (.retryLater true),
        .responded (some 7) (.lmConfiguration ⟨"db", "user", "pass", "fluffi_job", "job"⟩)]) ∧
    ∀ a ∈ raceRun.2.tasks, ∀ b ∈ raceRun.2.tasks, ∀ f, a.Assigned f → b.Assigned f →
      a.request.location = b.request.location → a.guid = b.guid := by
  have hrun : exec next (start raceDatabase) raceEvents = some raceRun := by rfl
  have hevents : raceRun.1.all (fun p => ofHandler p.2) = true := by rfl
  exact ⟨by rfl, (assignment_unique (run_of_exec hrun) fun p hp =>
    keepsLocalManagers_of_handler (List.all_eq_true.mp hevents p hp)).1⟩

/-! ### A local manager that is listed asks again -/

/-- Where the handler of a local manager that is listed already can be. -/
def Unassigned : Point → Prop
  | .getFuzzJobWithoutLM | .getLMConfigurationForFuzzJob _ | .setLMForLocationAndFuzzJob _ _
  | .addWorkerToDatabase => True
  | .responded _ response => response = .retryLater true
  | _ => False

theorem setLM_eq_none {db : GMDatabase} {request : RegisterAtGMRequest} {row : LocalManagerRow}
    (h : db.Lists request row) (f : ℕ) :
    db.setLMForLocationAndFuzzJob request.location request.serviceDescriptor f = none := by
  obtain ⟨hrow, hguid, hlocation⟩ := h
  rw [GMDatabase.setLMForLocationAndFuzzJob, hlocation, Option.bind_some]
  split
  · rw [Table.insert_eq_none_iff.mpr ⟨row, hrow, .inl hguid⟩]
    rfl
  · rfl

theorem unassigned_of_turns {task : Task} {db db' : GMDatabase} {now : ℕ} {turn : Turn}
    {point : Point} {row : LocalManagerRow} (h : task.Turns db now turn db' point)
    (hlists : db.Lists task.request row) (hp : Unassigned task.point) : Unassigned point := by
  cases h with
  | listed _ h =>
    rw [setLM_eq_none hlists] at h
    cases h
  | listedUnanswered _ h =>
    rw [setLM_eq_none hlists] at h
    cases h
  | _ => simp_all [Unassigned]

variable {i : ℕ} {task : Task} {row : LocalManagerRow}

/-- The row stays, so the handler gets no fuzzjob, whatever the others do. -/
theorem unassigned_run {tr : List (GMState × GMEvent)} {u : GMState} (hrun : Run next s tr u)
    (hkept : ∀ p ∈ tr, p.1.KeepsLocalManagers p.2) (htask : s.tasks[i]? = some task)
    (hp : Unassigned task.point) (hlists : s.db.Lists task.request row) :
    ∃ point, u.tasks[i]? = some (task.goto point) ∧ Unassigned point := by
  have h := (hrun.invariant_mem (I := fun s => s.db.Lists task.request row ∧
    ∃ point, s.tasks[i]? = some (task.goto point) ∧ Unassigned point) hkept
    ⟨hlists, task.point, htask, hp⟩ ?_).1
  · exact h.2
  · rintro s e t ⟨hlists, point, htask, hp⟩ hkept hnext
    have hextends := next_extends hnext hkept
    have hlists' : t.db.Lists task.request row :=
      ⟨hextends.localmanagers row hlists.1, hlists.2.1, hextends.locationID _ _ hlists.2.2⟩
    refine ⟨hlists', ?_⟩
    cases e with
    | request req =>
      cases hnext
      exact ⟨point, List.getElem?_append_left (List.getElem?_eq_some_iff.mp htask).1 ▸ htask, hp⟩
    | turn j turn =>
      obtain ⟨other, db, point', hother, hturn, rfl⟩ := next_turn hnext
      by_cases hij : j = i
      · subst hij
        obtain rfl : task.goto point = other := Option.some.inj (htask.symm.trans hother)
        refine ⟨point', ?_, unassigned_of_turns hturn hlists hp⟩
        exact List.getElem?_set_self (List.getElem?_eq_some_iff.mp htask).1
      · exact ⟨point, (List.getElem?_set_ne hij).trans htask, hp⟩
    | tick n =>
      cases hnext
      exact ⟨point, htask, hp⟩
    | removeManagedLM guid =>
      cases hnext
      exact ⟨point, htask, hp⟩
    | deleteWorkersNotSeenSinceXSec execution =>
      cases hnext
      refine ⟨point, ?_, hp⟩
      split <;> exact htask
    | web statement =>
      obtain ⟨db, _, rfl⟩ := Option.map_eq_some_iff.mp hnext
      exact ⟨point, htask, hp⟩

/-- A handler that can take a turn takes it. -/
theorem next_of_turn {db : GMDatabase} {task' : Task} {turn : Turn}
    (htask : s.tasks[i]? = some task) (hturn : task.turn s.db s.now turn = some (db, task')) :
    ∃ t, s.next (.turn i turn) = some t ∧ t.db = db ∧ t.tasks[i]? = some task' := by
  refine ⟨{ s with db := db, tasks := s.tasks.set i task' }, ?_, rfl, ?_⟩
  · simp [next, htask, hturn]
  · exact List.getElem?_set_self (List.getElem?_eq_some_iff.mp htask).1

/-- The statement events of one handler that the database executes. -/
def Executes (i : ℕ) (e : GMEvent) : Prop := ∃ choice, e = .turn i (.statement .executed choice)

/-- A handler that is about to add a worker comes to its response. -/
theorem responds_addWorker (htask : s.tasks[i]? = some (task.goto .addWorkerToDatabase)) :
    ∃ tr u fuzzjob, Run next s tr u ∧ (∀ p ∈ tr, Executes i p.2) ∧
      u.tasks[i]? = some (task.goto (.responded fuzzjob (.retryLater true))) := by
  have hturn : (task.goto .addWorkerToDatabase).turn s.db s.now (.statement .executed 0) =
      some (_, task.goto (.responded none (.retryLater true))) := rfl
  obtain ⟨t, ht, _, hpoint⟩ := next_of_turn htask hturn
  exact ⟨_, t, none, .single ht, by simp [Executes], hpoint⟩

/-- So does one that inserts a local manager that is listed. -/
theorem responds_setLM {f : ℕ} {c : FluffiLMConfiguration} (hlists : s.db.Lists task.request row)
    (htask : s.tasks[i]? = some (task.goto (.setLMForLocationAndFuzzJob f c))) :
    ∃ tr u fuzzjob, Run next s tr u ∧ (∀ p ∈ tr, Executes i p.2) ∧
      u.tasks[i]? = some (task.goto (.responded fuzzjob (.retryLater true))) := by
  have hturn : (task.goto (.setLMForLocationAndFuzzJob f c)).turn s.db s.now
      (.statement .executed 0) =
        some (s.db, task.goto (.responded (some f) (.retryLater true))) := by
    simp [Task.turn, Task.goto, setLM_eq_none hlists]
  obtain ⟨t, ht, _, hpoint⟩ := next_of_turn htask hturn
  exact ⟨_, t, some f, .single ht, by simp [Executes], hpoint⟩

theorem responds_cons {t : GMState} (ht : s.next (.turn i (.statement .executed 0)) = some t)
    (h : ∃ tr u fuzzjob, Run next t tr u ∧ (∀ p ∈ tr, Executes i p.2) ∧
      u.tasks[i]? = some (task.goto (.responded fuzzjob (.retryLater true)))) :
    ∃ tr u fuzzjob, Run next s tr u ∧ (∀ p ∈ tr, Executes i p.2) ∧
      u.tasks[i]? = some (task.goto (.responded fuzzjob (.retryLater true))) := by
  obtain ⟨tr, u, fuzzjob, hrun, hexecutes, hpoint⟩ := h
  exact ⟨_, u, fuzzjob, .cons ht hrun, List.forall_mem_cons.mpr ⟨⟨0, rfl⟩, hexecutes⟩, hpoint⟩

/-- With a database that executes its statements the handler comes to its response. -/
theorem responds (htask : s.tasks[i]? = some task) (hp : task.point = .getFuzzJobWithoutLM)
    (hlists : s.db.Lists task.request row) :
    ∃ tr u fuzzjob, Run next s tr u ∧ (∀ p ∈ tr, Executes i p.2) ∧
      u.tasks[i]? = some (task.goto (.responded fuzzjob (.retryLater true))) := by
  cases hcandidates : s.db.fuzzJobsWithoutLM task.request.location with
  | nil =>
    have hturn : task.turn s.db s.now (.statement .executed 0) =
        some (s.db, task.goto .addWorkerToDatabase) := by
      simp [Task.turn, hp, hcandidates]
    obtain ⟨t, ht, _, hpoint⟩ := next_of_turn htask hturn
    exact responds_cons ht (responds_addWorker hpoint)
  | cons f others =>
    have hturn : task.turn s.db s.now (.statement .executed 0) =
        some (s.db, task.goto (.getLMConfigurationForFuzzJob f)) := by
      simp [Task.turn, hp, hcandidates]
    obtain ⟨t, ht, hdb, hpoint⟩ := next_of_turn htask hturn
    refine responds_cons ht ?_
    cases hconfiguration : t.db.getLMConfigurationForFuzzJob f with
    | none =>
      have hturn : (task.goto (.getLMConfigurationForFuzzJob f)).turn t.db t.now
          (.statement .executed 0) =
            some (t.db, task.goto (.responded (some f) (.retryLater true))) := by
        simp [Task.turn, Task.goto, hconfiguration]
      obtain ⟨u, hu, _, hpoint⟩ := next_of_turn hpoint hturn
      exact ⟨_, u, some f, .single hu, by simp [Executes], hpoint⟩
    | some c =>
      have hturn : (task.goto (.getLMConfigurationForFuzzJob f)).turn t.db t.now
          (.statement .executed 0) =
            some (t.db, task.goto (.setLMForLocationAndFuzzJob f c)) := by
        simp [Task.turn, Task.goto, hconfiguration]
      obtain ⟨u, hu, hdb', hpoint⟩ := next_of_turn hpoint hturn
      have hlists : u.db.Lists task.request row := by rw [hdb', hdb]; exact hlists
      exact responds_cons hu (responds_setLM hlists hpoint)

/-- A local manager that is listed for a fuzzjob at its location gets an answer, but never
the configuration: there is no fuzzjob left, or the insert for another one is refused. -/
theorem listed_retries {request : RegisterAtGMRequest} {arrival : ℕ}
    (htype : request.type = .LocalManager)
    (htask : s.tasks[i]? = some (.begin request arrival)) (hlists : s.db.Lists request row) :
    (∀ tr u fuzzjob response, Run next s tr u → (∀ p ∈ tr, p.1.KeepsLocalManagers p.2) →
      u.tasks[i]? = some ((Task.begin request arrival).goto (.responded fuzzjob response)) →
        response = .retryLater true) ∧
    ∃ tr u fuzzjob, Run next s tr u ∧ (∀ p ∈ tr, Executes i p.2) ∧
      u.tasks[i]? =
        some ((Task.begin request arrival).goto (.responded fuzzjob (.retryLater true))) := by
  have hp : (Task.begin request arrival).point = .getFuzzJobWithoutLM := by
    simp [Task.begin, htype]
  refine ⟨fun tr u fuzzjob response hrun hkept hu => ?_, responds htask hp hlists⟩
  obtain ⟨point, hpoint, hunassigned⟩ :=
    unassigned_run hrun hkept htask (by rw [hp]; trivial) hlists
  have hgoto : (Task.begin request arrival).goto point =
      (Task.begin request arrival).goto (.responded fuzzjob response) :=
    Option.some.inj (hpoint.symm.trans hu)
  obtain rfl : point = .responded fuzzjob response := congrArg Task.point hgoto
  exact hunassigned

/-- The row of a local manager whose earlier answer came too late. -/
def listedRow : LocalManagerRow := ⟨"lm1", "host", 1, 7⟩

/-- The local manager asks again. -/
def askingAgain : GMState where
  db := { raceDatabase with localmanagers := .singleton listedRow }
  now := 0
  tasks := [.begin (lmRequest "lm1") 0]

theorem listed_retries_askingAgain :
    ∃ tr u fuzzjob, Run next askingAgain tr u ∧ (∀ p ∈ tr, Executes 0 p.2) ∧
      u.tasks[0]? =
        some ((Task.begin (lmRequest "lm1") 0).goto (.responded fuzzjob (.retryLater true))) := by
  have hlists : askingAgain.db.Lists (lmRequest "lm1") listedRow :=
    ⟨List.mem_singleton_self _, rfl, rfl⟩
  exact (listed_retries rfl rfl hlists).2

/-- All statements of the second request are executed, and it is not answered with the
configuration of the fuzzjob. -/
theorem askingAgain_not_configured :
    ¬∀ tr u fuzzjob response, Run next askingAgain tr u → (∀ p ∈ tr, Executes 0 p.2) →
      u.tasks[0]? =
        some ((Task.begin (lmRequest "lm1") 0).goto (.responded fuzzjob response)) →
      ∃ c, response = .lmConfiguration c ∧
        askingAgain.db.getLMConfigurationForFuzzJob listedRow.FuzzJob = some c := by
  intro h
  have hrun : exec next askingAgain [.turn 0 (.statement .executed 0),
      .turn 0 (.statement .executed 0)] = some (_, _) := rfl
  obtain ⟨c, hc, _⟩ := h _ _ none (.retryLater true) (run_of_exec hrun)
    (by simp [Executes]) rfl
  cases hc

end GMState

end Fluffi.GlobalManager
