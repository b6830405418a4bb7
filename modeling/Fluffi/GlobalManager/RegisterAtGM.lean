import Fluffi.GlobalManager.Database
import Fluffi.Systems.Run

/-! Registration at the global manager. Any number of worker threads handle requests
at the same time, each with its own connection to the database, so the statements of
different requests interleave. The users of the web application and the monitor of the
global manager write to the same tables. -/

namespace Fluffi.GlobalManager

open Shared Systems

/-! ### Requests and their handling -/

structure RegisterAtGMRequest where
  type : AgentType
  implementedAgentSubTypes : List String
  serviceDescriptor : FluffiServiceDescriptor
  location : String
  deriving DecidableEq, Repr

/-- A `oneof`: setting one of the fields clears the others. -/
inductive RegisterAtGMResponse
  | retryLater (value : Bool)
  | lmServiceDescriptor (descriptor : FluffiServiceDescriptor)
  | lmConfiguration (configuration : FluffiLMConfiguration)
  deriving DecidableEq, Repr

/-- What the question of `agentIsWelcomedAt` comes back with. -/
inductive WelcomeAnswer
  | unreachable
  | otherMessage
  | iswelcomed (value : Bool)
  deriving DecidableEq, Repr

/-- What a handler does next. The response comes with the value of the variable `fuzzjob`. -/
inductive Point
  | getLMServiceDescriptorForWorker
  | agentIsWelcomedAt (lm : LocalManagerRow)
  | removeWorkerFromDatabase
  | addWorkerToDatabase
  | getFuzzJobWithoutLM
  | getLMConfigurationForFuzzJob (fuzzjob : ℕ)
  | setLMForLocationAndFuzzJob (fuzzjob : ℕ) (configuration : FluffiLMConfiguration)
  | responded (fuzzjob : Option ℕ) (response : RegisterAtGMResponse)
  deriving DecidableEq, Repr

/-- A request that a thread handles or has handled, with the time of its arrival. -/
structure Task where
  request : RegisterAtGMRequest
  arrival : ℕ
  point : Point
  deriving DecidableEq, Repr

def Task.guid (task : Task) : String := task.request.serviceDescriptor.m_guid

/-- `handleFLUFFIMessage` up to its first statement. -/
def Task.begin (request : RegisterAtGMRequest) (arrival : ℕ) : Task :=
  ⟨request, arrival,
    match request.type with
    | .TestcaseGenerator | .TestcaseRunner | .TestcaseEvaluator => .getLMServiceDescriptorForWorker
    | .LocalManager => .getFuzzJobWithoutLM
    | .GlobalManager => .responded none (.retryLater true)⟩

/-- How the next statement or exchange of a handler ends. `choice` says which of several
rows a `SELECT` with `LIMIT 1` returns. -/
inductive Turn
  | statement (execution : Execution) (choice : ℕ)
  | exchange (answer : WelcomeAnswer)
  deriving DecidableEq, Repr

/-- The handler goes on at `point`. -/
def Task.goto (task : Task) (point : Point) : Task := { task with point := point }

def subtypes (request : RegisterAtGMRequest) : String :=
  "|".intercalate request.implementedAgentSubTypes

/-- `handleFLUFFIMessage` from one statement or exchange to the next. -/
def Task.turn (task : Task) (db : GMDatabase) (now : ℕ) : Turn → Option (GMDatabase × Task)
  | .statement execution choice =>
    match task.point with
    | .getLMServiceDescriptorForWorker =>
      match if execution = .executed then
          db.getLMServiceDescriptorForWorker task.request.serviceDescriptor else none with
      | some lm => some (db, task.goto (.agentIsWelcomedAt lm))
      | none => some (db, task.goto .addWorkerToDatabase)
    | .removeWorkerFromDatabase =>
      some (if execution = .refused then db
        else db.removeWorkerFromDatabase task.request.serviceDescriptor,
        task.goto .addWorkerToDatabase)
    | .addWorkerToDatabase =>
      some (if execution = .refused then db
        else (db.addWorkerToDatabase task.request.serviceDescriptor task.request.type
          (subtypes task.request) task.request.location now).getD db,
        task.goto (.responded none (.retryLater true)))
    | .getFuzzJobWithoutLM =>
      let candidates := db.fuzzJobsWithoutLM task.request.location
      match if execution = .executed then candidates[choice % candidates.length]? else none with
      | some fuzzjob => some (db, task.goto (.getLMConfigurationForFuzzJob fuzzjob))
      | none => some (db, task.goto .addWorkerToDatabase)
    | .getLMConfigurationForFuzzJob fuzzjob =>
      match if execution = .executed then db.getLMConfigurationForFuzzJob fuzzjob else none with
      | some configuration =>
        some (db, task.goto (.setLMForLocationAndFuzzJob fuzzjob configuration))
      | none => some (db, task.goto (.responded (some fuzzjob) (.retryLater true)))
    | .setLMForLocationAndFuzzJob fuzzjob configuration =>
      match if execution = .refused then none
          else db.setLMForLocationAndFuzzJob task.request.location task.request.serviceDescriptor
            fuzzjob with
      | some db =>
        -- Without an answer the statement counts as failed, and the configuration that
        -- was set before it gives way to `retryLater`.
        some (db, task.goto (.responded (some fuzzjob)
          (if execution = .executed then .lmConfiguration configuration else .retryLater true)))
      | none => some (db, task.goto (.responded (some fuzzjob) (.retryLater true)))
    | _ => none
  | .exchange answer =>
    match task.point with
    | .agentIsWelcomedAt lm =>
      if answer = .iswelcomed true then
        some (db, task.goto (.responded none (.lmServiceDescriptor
          ⟨lm.ServiceDescriptorHostAndPort, lm.ServiceDescriptorGUID⟩)))
      else some (db, task.goto .removeWorkerFromDatabase)
    | _ => none

/-- What a turn can do. -/
inductive Task.Turns (task : Task) (db : GMDatabase) (now : ℕ) :
    Turn → GMDatabase → Point → Prop
  | found {choice : ℕ} {lm : LocalManagerRow} (hp : task.point = .getLMServiceDescriptorForWorker)
      (h : db.getLMServiceDescriptorForWorker task.request.serviceDescriptor = some lm) :
      Turns task db now (.statement .executed choice) db (.agentIsWelcomedAt lm)
  | notFound {execution : Execution} {choice : ℕ}
      (hp : task.point = .getLMServiceDescriptorForWorker)
      (h : execution = .executed →
        db.getLMServiceDescriptorForWorker task.request.serviceDescriptor = none) :
      Turns task db now (.statement execution choice) db .addWorkerToDatabase
  | welcomed {lm : LocalManagerRow} (hp : task.point = .agentIsWelcomedAt lm) :
      Turns task db now (.exchange (.iswelcomed true)) db
        (.responded none (.lmServiceDescriptor
          ⟨lm.ServiceDescriptorHostAndPort, lm.ServiceDescriptorGUID⟩))
  | notWelcomed {answer : WelcomeAnswer} {lm : LocalManagerRow}
      (hp : task.point = .agentIsWelcomedAt lm) (h : answer ≠ .iswelcomed true) :
      Turns task db now (.exchange answer) db .removeWorkerFromDatabase
  | removed {execution : Execution} {choice : ℕ} (hp : task.point = .removeWorkerFromDatabase) :
      Turns task db now (.statement execution choice)
        (if execution = .refused then db
          else db.removeWorkerFromDatabase task.request.serviceDescriptor) .addWorkerToDatabase
  | added {execution : Execution} {choice : ℕ} (hp : task.point = .addWorkerToDatabase) :
      Turns task db now (.statement execution choice)
        (if execution = .refused then db
          else (db.addWorkerToDatabase task.request.serviceDescriptor task.request.type
            (subtypes task.request) task.request.location now).getD db)
        (.responded none (.retryLater true))
  | candidate {choice fuzzjob : ℕ} (hp : task.point = .getFuzzJobWithoutLM)
      (h : fuzzjob ∈ db.fuzzJobsWithoutLM task.request.location) :
      Turns task db now (.statement .executed choice) db (.getLMConfigurationForFuzzJob fuzzjob)
  | noCandidate {execution : Execution} {choice : ℕ} (hp : task.point = .getFuzzJobWithoutLM) :
      Turns task db now (.statement execution choice) db .addWorkerToDatabase
  | configuration {choice fuzzjob : ℕ} {c : FluffiLMConfiguration}
      (hp : task.point = .getLMConfigurationForFuzzJob fuzzjob)
      (h : db.getLMConfigurationForFuzzJob fuzzjob = some c) :
      Turns task db now (.statement .executed choice) db (.setLMForLocationAndFuzzJob fuzzjob c)
  | noConfiguration {execution : Execution} {choice fuzzjob : ℕ}
      (hp : task.point = .getLMConfigurationForFuzzJob fuzzjob) :
      Turns task db now (.statement execution choice) db
        (.responded (some fuzzjob) (.retryLater true))
  | listed {choice fuzzjob : ℕ} {c : FluffiLMConfiguration} {db' : GMDatabase}
      (hp : task.point = .setLMForLocationAndFuzzJob fuzzjob c)
      (h : db.setLMForLocationAndFuzzJob task.request.location task.request.serviceDescriptor
        fuzzjob = some db') :
      Turns task db now (.statement .executed choice) db'
        (.responded (some fuzzjob) (.lmConfiguration c))
  | listedUnanswered {choice fuzzjob : ℕ} {c : FluffiLMConfiguration} {db' : GMDatabase}
      (hp : task.point = .setLMForLocationAndFuzzJob fuzzjob c)
      (h : db.setLMForLocationAndFuzzJob task.request.location task.request.serviceDescriptor
        fuzzjob = some db') :
      Turns task db now (.statement .unanswered choice) db'
        (.responded (some fuzzjob) (.retryLater true))
  | notListed {execution : Execution} {choice fuzzjob : ℕ} {c : FluffiLMConfiguration}
      (hp : task.point = .setLMForLocationAndFuzzJob fuzzjob c) :
      Turns task db now (.statement execution choice) db
        (.responded (some fuzzjob) (.retryLater true))

theorem Task.turns_of_turn {task task' : Task} {db db' : GMDatabase} {now : ℕ} {turn : Turn}
    (h : task.turn db now turn = some (db', task')) :
    ∃ point, task' = task.goto point ∧ Task.Turns task db now turn db' point := by
  cases turn with
  | statement execution choice =>
    cases hp : task.point <;> simp only [Task.turn, hp] at h
    case getLMServiceDescriptorForWorker =>
      split at h <;> cases h
      · rename_i lm hlm
        obtain ⟨hex, hlm⟩ := Option.ite_none_right_eq_some.mp hlm
        exact ⟨_, rfl, hex ▸ .found hp hlm⟩
      · rename_i hlm
        exact ⟨_, rfl, .notFound hp fun hex => by rwa [if_pos hex] at hlm⟩
    case removeWorkerFromDatabase =>
      cases h
      exact ⟨_, rfl, .removed hp⟩
    case addWorkerToDatabase =>
      cases h
      exact ⟨_, rfl, .added hp⟩
    case getFuzzJobWithoutLM =>
      split at h <;> cases h
      · rename_i f hf
        obtain ⟨hex, hf⟩ := Option.ite_none_right_eq_some.mp hf
        exact ⟨_, rfl, hex ▸ .candidate hp (List.mem_of_getElem? hf)⟩
      · exact ⟨_, rfl, .noCandidate hp⟩
    case getLMConfigurationForFuzzJob f =>
      split at h <;> cases h
      · rename_i c hc
        obtain ⟨hex, hc⟩ := Option.ite_none_right_eq_some.mp hc
        exact ⟨_, rfl, hex ▸ .configuration hp hc⟩
      · exact ⟨_, rfl, .noConfiguration hp⟩
    case setLMForLocationAndFuzzJob f c =>
      split at h <;> cases h
      · rename_i db'' hdb
        obtain ⟨hex, hdb⟩ := Option.ite_none_left_eq_some.mp hdb
        cases execution with
        | executed => exact ⟨_, rfl, .listed hp hdb⟩
        | refused => exact absurd rfl hex
        | unanswered => exact ⟨_, rfl, .listedUnanswered hp hdb⟩
      · exact ⟨_, rfl, .notListed hp⟩
    all_goals cases h
  | exchange answer =>
    cases hp : task.point <;> simp only [Task.turn, hp] at h
    case agentIsWelcomedAt lm =>
      split at h <;> cases h
      · rename_i hanswer
        exact ⟨_, rfl, hanswer ▸ .welcomed hp⟩
      · exact ⟨_, rfl, .notWelcomed hp ‹_›⟩
    all_goals cases h

/-! ### The global manager -/

structure GMState where
  db : GMDatabase
  now : ℕ
  tasks : List Task

inductive GMEvent
  | request (request : RegisterAtGMRequest)
  | turn (i : ℕ) (turn : Turn)
  | tick (seconds : ℕ)
  /-- The monitor removes a local manager that does not respond, or workers. -/
  | removeManagedLM (guid : String)
  | deleteWorkersNotSeenSinceXSec (execution : Execution)
  | web (statement : GMDatabase.WebStatement)
  deriving DecidableEq, Repr

namespace GMState

def next (s : GMState) : GMEvent → Option GMState
  | .request request => some { s with tasks := s.tasks ++ [.begin request s.now] }
  | .turn i turn => (s.tasks[i]?).bind fun task =>
      (task.turn s.db s.now turn).map fun (db, task) =>
        { s with db := db, tasks := s.tasks.set i task }
  | .tick seconds => some { s with now := s.now + seconds }
  | .removeManagedLM guid => some { s with db := s.db.removeManagedLM guid }
  | .deleteWorkersNotSeenSinceXSec execution => some
      (if execution = .refused then s
        else { s with db := s.db.deleteWorkersNotSeenSinceXSec (60 * 1) s.now })
  | .web statement => (s.db.web statement).map fun db => { s with db := db }

/-- The turn of one handler leaves the others where they are. -/
theorem next_turn {s t : GMState} {i : ℕ} {turn : Turn} (h : s.next (.turn i turn) = some t) :
    ∃ task db point, s.tasks[i]? = some task ∧ task.Turns s.db s.now turn db point ∧
      t = { s with db := db, tasks := s.tasks.set i (task.goto point) } := by
  obtain ⟨task, htask, h⟩ := Option.bind_eq_some_iff.mp h
  obtain ⟨⟨db, task'⟩, hturn, rfl⟩ := Option.map_eq_some_iff.mp h
  obtain ⟨point, rfl, hpoint⟩ := Task.turns_of_turn hturn
  exact ⟨task, db, point, htask, hpoint, rfl⟩

end GMState

end Fluffi.GlobalManager
