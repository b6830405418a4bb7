import Fluffi.Shared.Identity
import Fluffi.Systems.Table

/-! The tables of the global manager that say who works on which fuzzjob, and the
statements on them. A table declares its keys, and a statement that a key or a
reference forbids has no effect. -/

namespace Fluffi.GlobalManager

open Shared Systems

/-! ### Tables -/

structure LocationRow where
  ID : ℕ
  Name : String
  deriving DecidableEq, Repr

structure FluffiLMConfiguration where
  m_dbHost : String
  m_dbUser : String
  m_dbPassword : String
  m_dbName : String
  m_fuzzJobName : String
  deriving DecidableEq, Repr

/-- A row of `fuzzjob` with its columns `DBHost`, `DBUser`, `DBPass`, `DBName` and `name`. -/
structure FuzzjobRow where
  ID : ℕ
  configuration : FluffiLMConfiguration
  deriving DecidableEq, Repr

structure LocationFuzzjob where
  Location : ℕ
  Fuzzjob : ℕ
  deriving DecidableEq, Repr

/-- A row of `localmanagers`. -/
structure LocalManagerRow where
  ServiceDescriptorGUID : String
  ServiceDescriptorHostAndPort : String
  Location : ℕ
  FuzzJob : ℕ
  deriving DecidableEq, Repr

/-- A row of `workers`. -/
structure WorkerRow where
  ServiceDescriptorGUID : String
  ServiceDescriptorHostAndPort : String
  FuzzJob : Option ℕ
  Location : ℕ
  TimeOfLastRequest : ℕ
  AgentType : AgentType
  AgentSubTypes : String
  deriving DecidableEq, Repr

/-- `PRIMARY KEY (ID)`, `UNIQUE (Name)` -/
def LocationRow.Clash (a b : LocationRow) : Prop := a.ID = b.ID ∨ a.Name = b.Name

/-- `PRIMARY KEY (ID)` -/
def FuzzjobRow.Clash (a b : FuzzjobRow) : Prop := a.ID = b.ID

/-- `PRIMARY KEY (ServiceDescriptorGUID)`, `UNIQUE KEY (Location, Fuzzjob)` -/
def LocalManagerRow.Clash (a b : LocalManagerRow) : Prop :=
  a.ServiceDescriptorGUID = b.ServiceDescriptorGUID ∨
    a.Location = b.Location ∧ a.FuzzJob = b.FuzzJob

/-- `PRIMARY KEY (ServiceDescriptorGUID)` -/
def WorkerRow.Clash (a b : WorkerRow) : Prop := a.ServiceDescriptorGUID = b.ServiceDescriptorGUID

instance : DecidableRel LocationRow.Clash := fun _ _ => inferInstanceAs (Decidable (_ ∨ _))
instance : DecidableRel FuzzjobRow.Clash := fun _ _ => inferInstanceAs (Decidable (_ = _))
instance : DecidableRel LocalManagerRow.Clash :=
  fun _ _ => inferInstanceAs (Decidable (_ ∨ _ ∧ _))
instance : DecidableRel WorkerRow.Clash := fun _ _ => inferInstanceAs (Decidable (_ = _))

theorem LocalManagerRow.clash_symm (a b : LocalManagerRow) (h : a.Clash b) : b.Clash a :=
  h.imp Eq.symm fun h => ⟨h.1.symm, h.2.symm⟩

structure GMDatabase where
  locations : Table LocationRow.Clash
  fuzzjob : Table FuzzjobRow.Clash
  location_fuzzjobs : Table (α := LocationFuzzjob) Eq
  localmanagers : Table LocalManagerRow.Clash
  workers : Table WorkerRow.Clash

namespace GMDatabase

/-! ### Statements of the global manager -/

/-- `SELECT locations.ID FROM locations WHERE locations.Name = ?` -/
def locationID (db : GMDatabase) (location : String) : Option ℕ :=
  (db.locations.rows.find? (·.Name = location)).map (·.ID)

/-- The local managers at the location and with the fuzzjob of a worker. -/
def lmsOf (db : GMDatabase) (worker : WorkerRow) : List LocalManagerRow :=
  db.localmanagers.rows.filter fun lm =>
    worker.Location = lm.Location ∧ worker.FuzzJob = some lm.FuzzJob

/-- `getLMServiceDescriptorForWorker` takes the row if there is exactly one. -/
def getLMServiceDescriptorForWorker (db : GMDatabase) (fsd : FluffiServiceDescriptor) :
    Option LocalManagerRow :=
  match (db.workers.rows.filter (·.ServiceDescriptorGUID = fsd.m_guid)).flatMap db.lmsOf with
  | [lm] => some lm
  | _ => none

/-- The candidates of `getFuzzJobWithoutLM`, of which the database returns one. -/
def fuzzJobsWithoutLM (db : GMDatabase) (location : String) : List ℕ :=
  (db.location_fuzzjobs.rows.filter fun lf =>
    db.locations.rows.any (fun loc => loc.ID = lf.Location ∧ loc.Name = location) ∧
      ¬db.localmanagers.rows.any fun lm => lm.Location = lf.Location ∧ lm.FuzzJob = lf.Fuzzjob).map
    (·.Fuzzjob)

/-- `getLMConfigurationForFuzzJob` throws unless there is exactly one row. -/
def getLMConfigurationForFuzzJob (db : GMDatabase) (fuzzJob : ℕ) : Option FluffiLMConfiguration :=
  match db.fuzzjob.rows.filter (·.ID = fuzzJob) with
  | [row] => some row.configuration
  | _ => none

/-- `setLMForLocationAndFuzzJob`: the location has to exist, to have the fuzzjob, and the
keys of `localmanagers` have to be free. -/
def setLMForLocationAndFuzzJob (db : GMDatabase) (location : String)
    (lmServiceDescriptor : FluffiServiceDescriptor) (fuzzjob : ℕ) : Option GMDatabase :=
  (db.locationID location).bind fun loc =>
    if ⟨loc, fuzzjob⟩ ∈ db.location_fuzzjobs.rows then
      (db.localmanagers.insert ⟨lmServiceDescriptor.m_guid,
        lmServiceDescriptor.m_serviceHostAndPort, loc, fuzzjob⟩).map fun localmanagers =>
          { db with localmanagers := localmanagers }
    else none

/-- `addWorkerToDatabase`: a `REPLACE` without a fuzzjob. -/
def addWorkerToDatabase (db : GMDatabase) (fsd : FluffiServiceDescriptor) (type : AgentType)
    (subtypes location : String) (now : ℕ) : Option GMDatabase :=
  (db.locationID location).map fun loc =>
    { db with
      workers := db.workers.replace
        ⟨fsd.m_guid, fsd.m_serviceHostAndPort, none, loc, now, type, subtypes⟩ }

def removeWorkerFromDatabase (db : GMDatabase) (fsd : FluffiServiceDescriptor) : GMDatabase :=
  { db with workers := db.workers.delete (·.ServiceDescriptorGUID = fsd.m_guid) }

def removeManagedLM (db : GMDatabase) (guid : String) : GMDatabase :=
  { db with localmanagers := db.localmanagers.delete (·.ServiceDescriptorGUID = guid) }

def deleteWorkersNotSeenSinceXSec (db : GMDatabase) (olderThanInSeconds now : ℕ) : GMDatabase :=
  { db with workers := db.workers.delete (·.TimeOfLastRequest + olderThanInSeconds < now) }

/-! ### Statements of the web application -/

def withFuzzJob (guid : String) (fuzzjobId : ℕ) (row : WorkerRow) : WorkerRow :=
  if row.ServiceDescriptorGUID = guid then { row with FuzzJob := some fuzzjobId } else row

@[simp] theorem withFuzzJob_guid (guid : String) (fuzzjobId : ℕ) (row : WorkerRow) :
    (withFuzzJob guid fuzzjobId row).ServiceDescriptorGUID = row.ServiceDescriptorGUID := by
  unfold withFuzzJob
  split <;> rfl

/-- `assignWorker` -/
def assignWorker (db : GMDatabase) (workerSdGUID : String) (fuzzjobId : ℕ) : GMDatabase :=
  { db with
    workers := db.workers.update (withFuzzJob workerSdGUID fuzzjobId) fun a b h => by
      simpa [WorkerRow.Clash] using h }

theorem mem_assignWorker {db : GMDatabase} {guid : String} {fuzzjobId : ℕ} {row : WorkerRow} :
    row ∈ (db.assignWorker guid fuzzjobId).workers.rows ↔
      ∃ before ∈ db.workers.rows, withFuzzJob guid fuzzjobId before = row := by
  rw [assignWorker, Table.mem_update]

inductive WebStatement
  | createLocation (row : LocationRow)
  | createFuzzjob (row : FuzzjobRow)
  | addProjectLocation (row : LocationFuzzjob)
  | removeProjectLocation (row : LocationFuzzjob)
  | assignWorker (workerSdGUID : String) (fuzzjobId : ℕ)
  deriving DecidableEq, Repr

def web (db : GMDatabase) : WebStatement → Option GMDatabase
  | .createLocation row => (db.locations.insert row).map fun t => { db with locations := t }
  | .createFuzzjob row => (db.fuzzjob.insert row).map fun t => { db with fuzzjob := t }
  | .addProjectLocation row =>
    if (∃ loc ∈ db.locations.rows, loc.ID = row.Location) ∧
        ∃ job ∈ db.fuzzjob.rows, job.ID = row.Fuzzjob then
      (db.location_fuzzjobs.insert row).map fun t => { db with location_fuzzjobs := t }
    else none
  -- `ON DELETE CASCADE`
  | .removeProjectLocation row => some { db with
      location_fuzzjobs := db.location_fuzzjobs.delete (· = row)
      localmanagers := db.localmanagers.delete fun lm =>
        lm.Location = row.Location ∧ lm.FuzzJob = row.Fuzzjob }
  | .assignWorker workerSdGUID fuzzjobId => some (db.assignWorker workerSdGUID fuzzjobId)

end GMDatabase

end Fluffi.GlobalManager
