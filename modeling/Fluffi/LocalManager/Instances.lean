import Fluffi.Systems.Table
import Fluffi.LocalManager.StatusStrings
import Fluffi.LocalManager.Welcome

/-! The agents that a local manager manages. An agent that registers gets a row, with the subtype
it is to have. The instance monitor asks each of them for its status, stores the answer and
removes the agents that do not answer. -/

namespace Fluffi.LocalManager

open Shared Systems

/-! ### The tables -/

structure ManagedInstance where
  ServiceDescriptorGUID : String
  ServiceDescriptorHostAndPort : String
  AgentType : Shared.AgentType
  AgentSubType : List Char
  Location : String
  deriving DecidableEq, Repr

def ManagedInstance.descriptor (i : ManagedInstance) : FluffiServiceDescriptor :=
  ⟨i.ServiceDescriptorHostAndPort, i.ServiceDescriptorGUID⟩

/-- The primary key of `managed_instances`. -/
def SameInstance (a b : ManagedInstance) : Prop :=
  a.ServiceDescriptorGUID = b.ServiceDescriptorGUID

instance : DecidableRel SameInstance := fun _ _ => inferInstanceAs (Decidable (_ = _))

structure NiceNameRow where
  ServiceDescriptorGUID : String
  NiceName : List Char
  deriving DecidableEq, Repr

/-- Both columns of `nice_names_managed_instance` are unique. -/
def SameNiceName (a b : NiceNameRow) : Prop :=
  a.ServiceDescriptorGUID = b.ServiceDescriptorGUID ∨ a.NiceName = b.NiceName

instance : DecidableRel SameNiceName := fun _ _ => inferInstanceAs (Decidable (_ ∨ _))

structure ManagedInstanceStatus where
  ServiceDescriptorGUID : String
  TimeOfStatus : ℕ
  Status : List Char
  deriving DecidableEq, Repr

structure InstancesDB where
  managed_instances : Table SameInstance
  managed_instances_statuses : List ManagedInstanceStatus
  nice_names_managed_instance : Table SameNiceName

/-! ### Registration -/

/-- The attempts to insert a nice name, each with whether the database executes it. That the agent
has a name already is told from the error; another agent with the name is an error like any. -/
def setNiceName (row : NiceNameRow) : List Bool → Table SameNiceName → Bool × Table SameNiceName
  | [], names => (false, names)
  | executed :: attempts, names =>
    if executed then
      match names.insert row with
      | some names => (true, names)
      | none =>
        if names.rows.any fun r => r.ServiceDescriptorGUID = row.ServiceDescriptorGUID then
          (true, names)
        else setNiceName row attempts names
    else setNiceName row attempts names

/-- What the database does with the statements of a registration: the query for the subtype of
the agent, that for the numbers of subtypes, and the inserts. -/
structure RegisterEnv where
  selected : Bool
  rows : List (List Char × ℕ+)
  inserted : Bool
  named : Fin 9 → Bool

/-- `INSERT ... ON DUPLICATE KEY UPDATE` sets all columns, and then the nice name is tried. -/
def writeManagedInstance (env : RegisterEnv) (db : InstancesDB) (row : ManagedInstance) :
    Bool × InstancesDB :=
  if env.inserted then
    let niceName := row.AgentSubType ++ row.ServiceDescriptorHostAndPort.toList
    let (success, names) := setNiceName ⟨row.ServiceDescriptorGUID, niceName⟩
      (List.ofFn env.named) db.nice_names_managed_instance
    (success, { db with
      managed_instances := db.managed_instances.replace row
      nice_names_managed_instance := names })
  else (false, db)

/-- The subtype of a registered agent; empty if it is not there or the query fails. -/
def getRegisteredInstanceSubType (env : RegisterEnv) (db : InstancesDB)
    (ServiceDescriptorGUID : String) : List Char :=
  if env.selected then
    ((db.managed_instances.rows.find? fun row =>
      row.ServiceDescriptorGUID = ServiceDescriptorGUID).map (·.AgentSubType)).getD []
  else []

structure RegisterAtLMRequest where
  type : AgentType
  implementedAgentSubTypes : List (List Char)
  servicedescriptor : FluffiServiceDescriptor
  location : String

structure RegisterAtLMResponse where
  success : Bool
  fuzzjobname : Option String
  deriving DecidableEq, Repr

/-- The row that a request is about, with the subtype that was selected. -/
def RegisterAtLMRequest.row (req : RegisterAtLMRequest) (selectedSubAgentType : List Char) :
    ManagedInstance where
  ServiceDescriptorGUID := req.servicedescriptor.m_guid
  ServiceDescriptorHostAndPort := req.servicedescriptor.m_serviceHostAndPort
  AgentType := req.type
  AgentSubType := selectedSubAgentType
  Location := req.location

/-- What the handler of registrations is built with. -/
structure RegisterAtLMRequestHandler where
  m_mylocation : String
  m_myfuzzjob : String
  settings : List FluffiSetting

/-- An agent that is not registered yet gets a subtype. `none` where the process exits. -/
def RegisterAtLMRequestHandler.register (handler : RegisterAtLMRequestHandler) (env : RegisterEnv)
    (db : InstancesDB) (req : RegisterAtLMRequest) : Option (Bool × InstancesDB) :=
  match req.type with
  | .TestcaseGenerator | .TestcaseRunner | .TestcaseEvaluator =>
    (decideSubAgentType handler.settings env.rows req.type req.implementedAgentSubTypes).map
      fun selectedSubAgentType =>
        if selectedSubAgentType = [] then (false, db)
        else writeManagedInstance env db (req.row selectedSubAgentType)
  | .GlobalManager | .LocalManager => some (false, db)

def RegisterAtLMRequestHandler.handleFLUFFIMessage (handler : RegisterAtLMRequestHandler)
    (env : RegisterEnv) (db : InstancesDB) (req : RegisterAtLMRequest) :
    Option (RegisterAtLMResponse × InstancesDB) :=
  let result :=
    if req.location ≠ handler.m_mylocation then some (false, db)
    else if getRegisteredInstanceSubType env db req.servicedescriptor.m_guid ≠ [] then
      some (true, db)
    else handler.register env db req
  result.map fun (success, db) =>
    (⟨success, if success then some handler.m_myfuzzjob else none⟩, db)

/-! ### The monitor -/

/-- `DELETE` where key and location agree. -/
def removeManagedInstance (db : InstancesDB) (ServiceDescriptorGUID location : String) :
    InstancesDB :=
  { db with managed_instances := db.managed_instances.delete fun row =>
      row.ServiceDescriptorGUID = ServiceDescriptorGUID ∧ row.Location = location }

def deleteManagedInstanceStatusOlderThanXSec (now : ℕ) (db : InstancesDB)
    (olderThanInSeconds : ℕ) : InstancesDB :=
  { db with managed_instances_statuses := db.managed_instances_statuses.filter fun status =>
      ¬ status.TimeOfStatus + olderThanInSeconds < now }

/-- The statement of `addNewManagedInstanceStatus`. -/
def insertStatus (now : ℕ) (db : InstancesDB) (ServiceDescriptorGUID : String)
    (Status : List Char) : InstancesDB :=
  { db with managed_instances_statuses :=
      db.managed_instances_statuses ++ [⟨ServiceDescriptorGUID, now, Status⟩] }

/-- What becomes of a status request, and of the statement that follows. -/
inductive StatusReply where
  | unanswered (removed : Bool)
  | otherMessage
  | status (text : List Char) (inserted : Bool)

/-- The body of the monitor's loop over the instances. `none` where the process exits. -/
def monitorInstance (location : String) (rates : Rates) (now : ℕ) (db : InstancesDB)
    (managedInstance : FluffiServiceDescriptor × AgentType) : StatusReply → Option InstancesDB
  | .unanswered removed =>
    some (if removed then removeManagedInstance db managedInstance.1.m_guid location else db)
  | .otherMessage => some db
  | .status text inserted =>
    (storeStatus managedInstance.2 rates text).map fun stored =>
      match stored with
      | some stored =>
        if inserted then insertStatus now db managedInstance.1.m_guid stored else db
      | none => db

/-! ### What is written and removed -/

section Rows

variable {handler : RegisterAtLMRequestHandler} {env : RegisterEnv} {db db' : InstancesDB}
  {req : RegisterAtLMRequest} {row i : ManagedInstance}

/-- Agents of the other types do not register. -/
def Managed : AgentType → Prop
  | .TestcaseGenerator | .TestcaseRunner | .TestcaseEvaluator => True
  | .GlobalManager | .LocalManager => False

/-- The request makes the handler write the row. -/
structure Registers (handler : RegisterAtLMRequestHandler) (env : RegisterEnv) (db : InstancesDB)
    (req : RegisterAtLMRequest) (row : ManagedInstance) : Prop where
  location : req.location = handler.m_mylocation
  unknown : getRegisteredInstanceSubType env db req.servicedescriptor.m_guid = []
  managed : Managed req.type
  decided : decideSubAgentType handler.settings env.rows req.type req.implementedAgentSubTypes =
    some row.AgentSubType
  nonempty : row.AgentSubType ≠ []
  inserted : env.inserted = true
  eq_row : row = req.row row.AgentSubType

theorem Registers.unique (h : Registers handler env db req row)
    (h' : Registers handler env db req i) : i = row := by
  have hsub := Option.some.inj (h'.decided.symm.trans h.decided)
  rw [h'.eq_row, h.eq_row, hsub]

theorem writeManagedInstance_cases (env : RegisterEnv) (db : InstancesDB) (row : ManagedInstance) :
    (env.inserted = true ∧
        (writeManagedInstance env db row).2.managed_instances = db.managed_instances.replace row ∨
      env.inserted = false ∧ (writeManagedInstance env db row).2 = db) ∧
      (writeManagedInstance env db row).2.managed_instances_statuses =
        db.managed_instances_statuses := by
  unfold writeManagedInstance
  split
  · rename_i hinserted
    exact ⟨.inl ⟨hinserted, rfl⟩, rfl⟩
  · rename_i hinserted
    exact ⟨.inr ⟨by simpa using hinserted, rfl⟩, rfl⟩

/-- A request writes one row, or it leaves the instances as they are. -/
theorem register_cases {success : Bool} (hlocation : req.location = handler.m_mylocation)
    (hunknown : getRegisteredInstanceSubType env db req.servicedescriptor.m_guid = [])
    (h : handler.register env db req = some (success, db')) :
    ((∃ row, Registers handler env db req row ∧
        db'.managed_instances = db.managed_instances.replace row) ∨
      (∀ row, ¬ Registers handler env db req row) ∧
        db'.managed_instances = db.managed_instances) ∧
      db'.managed_instances_statuses = db.managed_instances_statuses := by
  by_cases hmanaged : Managed req.type
  · have hdecide : ∃ selected,
        decideSubAgentType handler.settings env.rows req.type req.implementedAgentSubTypes =
          some selected ∧
        (if selected = [] then (false, db) else writeManagedInstance env db (req.row selected)) =
          (success, db') := by
      unfold RegisterAtLMRequestHandler.register at h
      split at h
      · exact Option.map_eq_some_iff.mp h
      · exact Option.map_eq_some_iff.mp h
      · exact Option.map_eq_some_iff.mp h
      · rename_i htype
        rw [htype] at hmanaged
        exact hmanaged.elim
      · rename_i htype
        rw [htype] at hmanaged
        exact hmanaged.elim
    obtain ⟨selected, hselected, hresult⟩ := hdecide
    split at hresult
    · rename_i hempty
      obtain ⟨-, rfl⟩ := Prod.mk.inj hresult
      refine ⟨.inr ⟨fun row hrow => hrow.nonempty ?_, rfl⟩, rfl⟩
      rw [← Option.some.inj (hselected.symm.trans hrow.decided), hempty]
    · rename_i hnonempty
      obtain ⟨hrows, hstatuses⟩ := writeManagedInstance_cases env db (req.row selected)
      rw [hresult] at hrows hstatuses
      refine ⟨?_, hstatuses⟩
      rcases hrows with ⟨hinserted, hrows⟩ | ⟨hinserted, rfl⟩
      · exact .inl ⟨req.row selected,
          ⟨hlocation, hunknown, hmanaged, hselected, hnonempty, hinserted, rfl⟩, hrows⟩
      · refine .inr ⟨fun row hrow => ?_, rfl⟩
        have := hrow.inserted
        simp [hinserted] at this
  · have hrefused : (success, db') = (false, db) := by
      unfold RegisterAtLMRequestHandler.register at h
      split at h
      · rename_i htype
        exact (hmanaged (htype ▸ trivial)).elim
      · rename_i htype
        exact (hmanaged (htype ▸ trivial)).elim
      · rename_i htype
        exact (hmanaged (htype ▸ trivial)).elim
      · exact (Option.some.inj h).symm
      · exact (Option.some.inj h).symm
    obtain ⟨-, rfl⟩ := Prod.mk.inj hrefused
    exact ⟨.inr ⟨fun row hrow => hmanaged hrow.managed, rfl⟩, rfl⟩

theorem registered_cases {resp : RegisterAtLMResponse}
    (h : handler.handleFLUFFIMessage env db req = some (resp, db')) :
    ((∃ row, Registers handler env db req row ∧
        db'.managed_instances = db.managed_instances.replace row) ∨
      (∀ row, ¬ Registers handler env db req row) ∧
        db'.managed_instances = db.managed_instances) ∧
      db'.managed_instances_statuses = db.managed_instances_statuses := by
  obtain ⟨⟨success, db''⟩, hresult, heq⟩ := Option.map_eq_some_iff.mp h
  obtain ⟨-, rfl⟩ := Prod.mk.inj heq
  split_ifs at hresult with hlocation hknown
  · obtain ⟨-, rfl⟩ := Prod.mk.inj (Option.some.inj hresult)
    exact ⟨.inr ⟨fun row hrow => hlocation hrow.location, rfl⟩, rfl⟩
  · obtain ⟨-, rfl⟩ := Prod.mk.inj (Option.some.inj hresult)
    exact ⟨.inr ⟨fun row hrow => hknown hrow.unknown, rfl⟩, rfl⟩
  · exact register_cases (not_not.mp hlocation) (not_not.mp hknown) hresult

/-- A row is in the table after a request if it was written, or it was there and no row of the
same agent was written. -/
theorem mem_handle {resp : RegisterAtLMResponse}
    (h : handler.handleFLUFFIMessage env db req = some (resp, db')) :
    i ∈ db'.managed_instances.rows ↔ Registers handler env db req i ∨
      i ∈ db.managed_instances.rows ∧
        ¬ ∃ row, Registers handler env db req row ∧ SameInstance i row := by
  rcases (registered_cases h).1 with ⟨row, hrow, heq⟩ | ⟨hnone, heq⟩
  · rw [heq, Table.mem_replace, or_comm]
    have hi : i = row ↔ Registers handler env db req i :=
      ⟨fun hi => hi ▸ hrow, fun hi => hrow.unique hi⟩
    have hsame : SameInstance i row ↔
        ∃ row, Registers handler env db req row ∧ SameInstance i row :=
      ⟨fun hs => ⟨row, hrow, hs⟩, fun ⟨row', hrow', hs⟩ => hrow.unique hrow' ▸ hs⟩
    rw [hi, hsame]
  · rw [heq]
    constructor
    · exact fun hi => .inr ⟨hi, fun ⟨row, hrow, _⟩ => hnone row hrow⟩
    · rintro (hi | ⟨hi, -⟩)
      · exact (hnone i hi).elim
      · exact hi

theorem mem_removeManagedInstance {guid location : String} :
    i ∈ (removeManagedInstance db guid location).managed_instances.rows ↔
      i ∈ db.managed_instances.rows ∧
        ¬ (i.ServiceDescriptorGUID = guid ∧ i.Location = location) := by
  rw [removeManagedInstance, Table.mem_delete, decide_eq_false_iff_not]

end Rows

end Fluffi.LocalManager
