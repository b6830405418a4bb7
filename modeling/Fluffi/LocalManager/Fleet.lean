import Fluffi.Systems.Histories
import Fluffi.LocalManager.Instances
import Fluffi.Runner.CommPartnerManager

/-! Which generators and evaluators a runner works with. The local manager weighs them by the
queue lengths in their last reports and sends the lists to all runners. Registration, monitor and
these rounds are threads of their own. -/

namespace Fluffi.LocalManager

open Shared Systems Runner

/-! ### The reports of the agents -/

/-- The general numbers of a status as they are printed. -/
structure GeneralStatus where
  systemCPU : List Char
  processCPU : List Char
  averageRTT : List Char
  clean : ∀ c ∈ systemCPU ++ processCPU ++ averageRTT, c ≠ ' ' ∧ c ≠ '|' ∧ c ≠ '\x00'

def GeneralStatus.text (general : GeneralStatus) : List Char :=
  generateGeneralStatus general.systemCPU general.processCPU general.averageRTT

def TGGetStatusRequestHandler.generateStatus (general : GeneralStatus)
    (pendingTestcaseQueueSize sentButNotEvaluatedTestcaseSetSize : ℕ) : List Char :=
  general.text ++ " TestCasesQueueSize ".toList ++ Nat.toDigits 10 pendingTestcaseQueueSize ++
    " |".toList ++ " TestCasesWithoutResponse ".toList ++
    Nat.toDigits 10 sentButNotEvaluatedTestcaseSetSize ++ " |".toList

def TEGetStatusRequestHandler.generateStatus (general : GeneralStatus)
    (testOutcomeDequeSize : ℕ) : List Char :=
  general.text ++ " TestEvaluationsQueueSize ".toList ++ Nat.toDigits 10 testOutcomeDequeSize ++
    " |".toList

/-! ### Weights -/

structure StatusOfInstance where
  serviceDescriptorHostAndPort : String
  serviceDescriptorGUID : String
  type : AgentType
  status : List Char → Option (List Char)
  weight : UInt32

/-- An `int` as an unsigned number of 32 bits. -/
def unsignedOf (n : ℤ) : UInt32 := UInt32.ofNat (n % 2 ^ 32).toNat

def calculateGeneratorWeight (status : StatusOfInstance) : UInt32 :=
  match (status.status "TestCasesQueueSize".toList).bind stoi with
  | some queueSize => 100 + unsignedOf queueSize
  | none => 100

/-- The subtraction may leave the range of an `int`. -/
def calculateEvaluatorWeight (status : StatusOfInstance) : Option UInt32 :=
  match (status.status "TestEvaluationsQueueSize".toList).bind stoi with
  | some queueSize => (toInt (1000 - queueSize)).map fun score => unsignedOf (max 100 score)
  | none => some 100

/-- `WorkerWeightCalculator`: the instances that were weighed. -/
structure WorkerWeightCalculator where
  m_generatorStatus : List StatusOfInstance
  m_evaluatorStatus : List StatusOfInstance

/-- The loop of `updateStatusInformation`, which takes the instances from the back. -/
def updateStatusInformation :
    List StatusOfInstance → WorkerWeightCalculator → Option WorkerWeightCalculator
  | [], calculator => some calculator
  | status :: statusVector, calculator =>
    match status.type with
    | .TestcaseGenerator =>
      updateStatusInformation statusVector { calculator with
        m_generatorStatus := calculator.m_generatorStatus ++
          [{ status with weight := calculateGeneratorWeight status }] }
    | .TestcaseEvaluator =>
      (calculateEvaluatorWeight status).bind fun weight =>
        updateStatusInformation statusVector { calculator with
          m_evaluatorStatus := calculator.m_evaluatorStatus ++ [{ status with weight := weight }] }
    | _ => updateStatusInformation statusVector calculator

/-- The answer of the status query: each instance of the location that has a status, in any order,
with one of its newest. -/
def StatusAnswer (db : InstancesDB) (location : String)
    (rows : List (ManagedInstance × ManagedInstanceStatus)) : Prop :=
  (rows.map Prod.fst).Perm (db.managed_instances.rows.filter fun i => i.Location = location ∧
      ∃ status ∈ db.managed_instances_statuses,
        status.ServiceDescriptorGUID = i.ServiceDescriptorGUID) ∧
    ∀ row ∈ rows, row.2 ∈ db.managed_instances_statuses ∧
      row.2.ServiceDescriptorGUID = row.1.ServiceDescriptorGUID ∧
      ∀ other ∈ db.managed_instances_statuses,
        other.ServiceDescriptorGUID = row.2.ServiceDescriptorGUID →
          other.TimeOfStatus ≤ row.2.TimeOfStatus

instance (db : InstancesDB) (location : String)
    (rows : List (ManagedInstance × ManagedInstanceStatus)) :
    Decidable (StatusAnswer db location rows) := inferInstanceAs (Decidable (_ ∧ _))

/-- A row as `getStatusOfManagedInstances` returns it. -/
def statusOfInstance (row : ManagedInstance × ManagedInstanceStatus) : StatusOfInstance where
  serviceDescriptorHostAndPort := row.1.ServiceDescriptorHostAndPort
  serviceDescriptorGUID := row.1.ServiceDescriptorGUID
  type := row.1.AgentType
  status := statusOf row.2.Status
  weight := 0

/-! ### The partners of the runners -/

def StatusOfInstance.serviceAndWeight (status : StatusOfInstance) : FluffiServiceAndWeight :=
  ⟨⟨status.serviceDescriptorHostAndPort, status.serviceDescriptorGUID⟩, status.weight⟩

structure SetTGsAndTEsRequest where
  tgs : RepeatedPtrField FluffiServiceAndWeight
  tes : RepeatedPtrField FluffiServiceAndWeight

/-- The request that `setTGsAndTEsAtTRs` builds of the answer of the query, `none` if the query
fails. Without a result the behaviour is undefined or there are too many instances. -/
def buildRequest (rows : Option (List (ManagedInstance × ManagedInstanceStatus))) :
    Option SetTGsAndTEsRequest :=
  (updateStatusInformation ((rows.getD []).map statusOfInstance).reverse ⟨[], []⟩).bind
    fun calculator =>
      let tgs := calculator.m_generatorStatus.map StatusOfInstance.serviceAndWeight
      let tes := calculator.m_evaluatorStatus.map StatusOfInstance.serviceAndWeight
      if h : tgs.length < 2 ^ 31 ∧ tes.length < 2 ^ 31 then some ⟨⟨tgs, h.1⟩, ⟨tes, h.2⟩⟩ else none

/-- What a runner knows of generators and evaluators. -/
structure RunnerPartners where
  m_tGManager : CommPartnerManager
  m_tEManager : CommPartnerManager
  deriving DecidableEq

def RunnerPartners.new : RunnerPartners := ⟨.new, .new⟩

/-- `SetTGsAndTEsRequestHandler::handleFLUFFIMessage` -/
def RunnerPartners.handleFLUFFIMessage (partners : RunnerPartners) (req : SetTGsAndTEsRequest) :
    RunnerPartners :=
  ⟨(partners.m_tGManager.updateCommPartners req.tgs).1,
    (partners.m_tEManager.updateCommPartners req.tes).1⟩

/-! ### The system -/

/-- Where `setTGsAndTEsAtTRs` is. -/
inductive ControlRound where
  | waiting
  | weighted (req : SetTGsAndTEsRequest)
  | informing (req : SetTGsAndTEsRequest) (runners : List FluffiServiceDescriptor)

def ControlRound.req : ControlRound → Option SetTGsAndTEsRequest
  | .waiting => none
  | .weighted req => some req
  | .informing req _ => some req

/-- The runners are told apart by host and port. -/
structure Fleet where
  now : ℕ
  db : InstancesDB
  polling : List (FluffiServiceDescriptor × AgentType)
  round : ControlRound
  runners : String → RunnerPartners

/-- A request to a runner is answered, or the runner gets it while its answer is lost, or not even
that; then the runner is removed if the database executes it. -/
inductive InformOutcome where
  | answered
  | answerLost (removed : Bool)
  | lost (removed : Bool)
  deriving DecidableEq

def InformOutcome.handled : InformOutcome → Bool
  | .answered | .answerLost _ => true
  | .lost _ => false

def InformOutcome.removed : InformOutcome → Bool
  | .answered => false
  | .answerLost removed | .lost removed => removed

inductive FleetEvent where
  | tick
  | register (env : RegisterEnv) (req : RegisterAtLMRequest)
  | expire (executed : Bool)
  | startMonitoring (instances : List (FluffiServiceDescriptor × AgentType))
  | monitor (reply : StatusReply)
  | weigh (rows : Option (List (ManagedInstance × ManagedInstanceStatus)))
  | listRunners (runners : List FluffiServiceDescriptor)
  | inform (outcome : InformOutcome)
  | endRound
  | restartRunner (hostAndPort : String)

/-- What the threads of a local manager are built with. -/
structure FleetConfig where
  handler : RegisterAtLMRequestHandler
  rates : Rates

def FleetConfig.location (config : FleetConfig) : String := config.handler.m_mylocation

/-- The rows that `getAllRegisteredInstances` asks for. -/
def allRegistered (db : InstancesDB) (location : String) :
    List (FluffiServiceDescriptor × AgentType) :=
  (db.managed_instances.rows.filter fun i => i.Location = location).map fun i =>
    (i.descriptor, i.AgentType)

/-- The rows that `getRegisteredInstancesOfAgentType` asks for. -/
def registeredOfType (db : InstancesDB) (type : AgentType) (location : String) :
    List FluffiServiceDescriptor :=
  (db.managed_instances.rows.filter fun i => i.AgentType = type ∧ i.Location = location).map
    ManagedInstance.descriptor

namespace Fleet

def init (db : InstancesDB) : Fleet := ⟨0, db, [], .waiting, fun _ => .new⟩

/-- One runner gets the request or is removed. -/
def informRunner (config : FleetConfig) (s : Fleet) (req : SetTGsAndTEsRequest)
    (runner : FluffiServiceDescriptor) (outcome : InformOutcome) : Fleet :=
  { s with
    db := if outcome.removed then removeManagedInstance s.db runner.m_guid config.location else s.db
    runners :=
      if outcome.handled then
        Function.update s.runners runner.m_serviceHostAndPort
          ((s.runners runner.m_serviceHostAndPort).handleFLUFFIMessage req)
      else s.runners }

/-- A query that fails returns no rows. -/
def next (config : FleetConfig) (s : Fleet) : FleetEvent → Option Fleet
  | .tick => some { s with now := s.now + 1 }
  | .register env req =>
    (config.handler.handleFLUFFIMessage env s.db req).map fun result => { s with db := result.2 }
  | .expire executed =>
    some { s with
      db := if executed then deleteManagedInstanceStatusOlderThanXSec s.now s.db 60 else s.db }
  | .startMonitoring instances =>
    if s.polling = [] ∧ (instances = [] ∨ instances.Perm (allRegistered s.db config.location)) then
      some { s with polling := instances }
    else none
  | .monitor reply =>
    match s.polling with
    | [] => none
    | managedInstance :: polling =>
      (monitorInstance config.location config.rates s.now s.db managedInstance reply).map fun db =>
        { s with db := db, polling := polling }
  | .weigh rows =>
    match s.round with
    | .waiting =>
      if ∀ answer ∈ rows, StatusAnswer s.db config.location answer then
        (buildRequest rows).map fun req => { s with round := .weighted req }
      else none
    | _ => none
  | .listRunners runners =>
    match s.round with
    | .weighted req =>
      if runners = [] ∨
          runners.Perm (registeredOfType s.db .TestcaseRunner config.location) then
        some { s with round := .informing req runners }
      else none
    | _ => none
  | .inform outcome =>
    match s.round with
    | .informing req (runner :: runners) =>
      some { s.informRunner config req runner outcome with round := .informing req runners }
    | _ => none
  | .endRound =>
    match s.round with
    | .informing _ [] => some { s with round := .waiting }
    | _ => none
  | .restartRunner hostAndPort =>
    some { s with runners := Function.update s.runners hostAndPort .new }

end Fleet

end Fluffi.LocalManager
