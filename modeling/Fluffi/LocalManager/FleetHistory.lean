import Fluffi.LocalManager.FleetReports
import Fluffi.LocalManager.StatusRewriting

/-! The lists of a runner, read off the history of the fleet. The tables are what the last
registrations, removals and reports have left, a round sends what it found in the tables when it
began, and a runner keeps the lists of the last round that reached it. -/

namespace Fluffi.LocalManager

open Shared Systems Runner

namespace Fleet

variable {config : FleetConfig} {s t : Fleet} {e : FleetEvent} {hostAndPort : String}

/-! ### Changes -/

/-- A registration writes the row. -/
def Writes (config : FleetConfig) (i : ManagedInstance) (p : Fleet × FleetEvent) : Prop :=
  ∃ env req, p.2 = .register env req ∧ Registers config.handler env p.1.db req i

/-- The agent has not answered the monitor or a round, and is removed. -/
def Removes (guid : String) (p : Fleet × FleetEvent) : Prop :=
  (∃ managedInstance polling, p.2 = .monitor (.unanswered true) ∧
      p.1.polling = managedInstance :: polling ∧ managedInstance.1.m_guid = guid) ∨
    ∃ outcome req runner runners, p.2 = .inform outcome ∧ outcome.removed = true ∧
      p.1.round = .informing req (runner :: runners) ∧ runner.m_guid = guid

/-- The row is removed or written anew. -/
def Drops (config : FleetConfig) (i : ManagedInstance) (p : Fleet × FleetEvent) : Prop :=
  (Removes i.ServiceDescriptorGUID p ∧ i.Location = config.location) ∨
    ∃ row, Writes config row p ∧ SameInstance i row

/-- The monitor stores the status. -/
def Reports (config : FleetConfig) (status : ManagedInstanceStatus) (p : Fleet × FleetEvent) :
    Prop :=
  ∃ managedInstance polling text stored, p.2 = .monitor (.status text true) ∧
    p.1.polling = managedInstance :: polling ∧
    storeStatus managedInstance.2 config.rates text = some (some stored) ∧
    status = ⟨managedInstance.1.m_guid, p.1.now, stored⟩

/-- The status is more than a minute old, and deleted. -/
def Expires (status : ManagedInstanceStatus) (p : Fleet × FleetEvent) : Prop :=
  p.2 = .expire true ∧ status.TimeOfStatus + 60 < p.1.now

/-- The event leaves the tables as they are. -/
def Keeps : FleetEvent → Prop
  | .register _ _ | .expire true | .monitor _ | .inform _ => False
  | _ => True

/-- What a step does to the tables. -/
inductive Change (config : FleetConfig) (s t : Fleet) : FleetEvent → Prop
  | register {env : RegisterEnv} {req : RegisterAtLMRequest} {resp : RegisterAtLMResponse} :
      config.handler.handleFLUFFIMessage env s.db req = some (resp, t.db) →
      Change config s t (.register env req)
  | monitor {managedInstance : FluffiServiceDescriptor × AgentType}
      {polling : List (FluffiServiceDescriptor × AgentType)} {reply : StatusReply} :
      s.polling = managedInstance :: polling →
      monitorInstance config.location config.rates s.now s.db managedInstance reply = some t.db →
      Change config s t (.monitor reply)
  | inform {outcome : InformOutcome} {req : SetTGsAndTEsRequest} {runner : FluffiServiceDescriptor}
      {runners : List FluffiServiceDescriptor} :
      s.round = .informing req (runner :: runners) →
      t.db = (s.informRunner config req runner outcome).db → Change config s t (.inform outcome)
  | expire : t.db = deleteManagedInstanceStatusOlderThanXSec s.now s.db 60 →
      Change config s t (.expire true)
  | kept {e : FleetEvent} : t.db = s.db → Keeps e → Change config s t e

theorem next_change (h : s.next config e = some t) : Change config s t e := by
  cases e with
  | tick =>
    obtain rfl := Option.some.inj h
    exact .kept rfl trivial
  | register env req =>
    obtain ⟨result, hresult, rfl⟩ := Option.map_eq_some_iff.mp h
    exact .register hresult
  | expire executed =>
    obtain rfl := Option.some.inj h
    cases executed with
    | true => exact .expire rfl
    | false => exact .kept rfl trivial
  | startMonitoring instances =>
    simp only [next] at h
    split_ifs at h
    obtain rfl := Option.some.inj h
    exact .kept rfl trivial
  | monitor reply =>
    simp only [next] at h
    split at h
    · cases h
    · rename_i managedInstance polling hpolling
      obtain ⟨db, hdb, rfl⟩ := Option.map_eq_some_iff.mp h
      exact .monitor hpolling hdb
  | weigh rows =>
    simp only [next] at h
    split at h
    · split_ifs at h
      obtain ⟨req, -, rfl⟩ := Option.map_eq_some_iff.mp h
      exact .kept rfl trivial
    · cases h
  | listRunners runners =>
    simp only [next] at h
    split at h
    · split_ifs at h
      obtain rfl := Option.some.inj h
      exact .kept rfl trivial
    · cases h
  | inform outcome =>
    simp only [next] at h
    split at h
    · rename_i req runner runners hround
      obtain rfl := Option.some.inj h
      exact .inform hround rfl
    · cases h
  | endRound =>
    simp only [next] at h
    split at h
    · obtain rfl := Option.some.inj h
      exact .kept rfl trivial
    · cases h
  | restartRunner hostAndPort =>
    obtain rfl := Option.some.inj h
    exact .kept rfl trivial

theorem not_writes (i : ManagedInstance) (he : ∀ env req, e ≠ .register env req) :
    ¬ Writes config i (s, e) :=
  fun ⟨env, req, heq, _⟩ => he env req heq

/-- A row that nothing registers is there unless its agent is removed. -/
theorem mem_of_removed {i : ManagedInstance} (he : ∀ env req, e ≠ .register env req)
    (h : i ∈ t.db.managed_instances.rows ↔ i ∈ s.db.managed_instances.rows ∧
      ¬ (Removes i.ServiceDescriptorGUID (s, e) ∧ i.Location = config.location)) :
    i ∈ t.db.managed_instances.rows ↔ Writes config i (s, e) ∨
      i ∈ s.db.managed_instances.rows ∧ ¬ Drops config i (s, e) := by
  have hdrops : Drops config i (s, e) ↔
      Removes i.ServiceDescriptorGUID (s, e) ∧ i.Location = config.location :=
    or_iff_left fun ⟨row, hrow, _⟩ => not_writes row he hrow
  rw [hdrops, h]
  exact (or_iff_right (not_writes i he)).symm

theorem mem_instances_next (h : s.next config e = some t) (i : ManagedInstance) :
    i ∈ t.db.managed_instances.rows ↔ Writes config i (s, e) ∨
      i ∈ s.db.managed_instances.rows ∧ ¬ Drops config i (s, e) := by
  cases next_change h with
  | @register env req resp hhandled =>
    have hwrites : ∀ row, Writes config row (s, .register env req) ↔
        Registers config.handler env s.db req row := by
      intro row
      constructor
      · rintro ⟨env', req', heq, hrow⟩
        obtain ⟨rfl, rfl⟩ := FleetEvent.register.inj heq
        exact hrow
      · exact fun hrow => ⟨env, req, rfl, hrow⟩
    have hdrops : Drops config i (s, .register env req) ↔
        ∃ row, Registers config.handler env s.db req row ∧ SameInstance i row := by
      simp only [Drops, hwrites]
      refine or_iff_right ?_
      rintro ⟨⟨_, _, heq, _⟩ | ⟨_, _, _, _, heq, _⟩, _⟩ <;> cases heq
    rw [hwrites, hdrops]
    exact mem_handle hhandled
  | @monitor managedInstance polling reply hpolling hmonitored =>
    refine mem_of_removed (by simp) ?_
    have hremoves : ∀ guid, Removes guid (s, .monitor reply) ↔
        reply = .unanswered true ∧ managedInstance.1.m_guid = guid := by
      intro guid
      constructor
      · rintro (⟨managedInstance', polling', heq, hpolling', hguid⟩ | ⟨_, _, _, _, heq, _⟩)
        · rw [hpolling] at hpolling'
          obtain ⟨rfl, rfl⟩ := List.cons.inj hpolling'
          exact ⟨FleetEvent.monitor.inj heq, hguid⟩
        · cases heq
      · rintro ⟨rfl, hguid⟩
        exact .inl ⟨managedInstance, polling, rfl, hpolling, hguid⟩
    rw [hremoves]
    cases reply with
    | unanswered removed =>
      obtain hdb := Option.some.inj hmonitored
      cases removed with
      | true =>
        rw [← hdb, if_pos rfl, mem_removeManagedInstance]
        simp [FleetConfig.location, eq_comm]
      | false =>
        rw [← hdb]
        simp
    | otherMessage =>
      obtain hdb := Option.some.inj hmonitored
      rw [← hdb]
      simp
    | status text inserted =>
      obtain ⟨stored, -, hdb⟩ := Option.map_eq_some_iff.mp hmonitored
      rw [← hdb]
      cases stored with
      | none => simp
      | some stored => cases inserted <;> simp [insertStatus]
  | @inform outcome req runner runners hround hdb =>
    refine mem_of_removed (by simp) ?_
    have hremoves : ∀ guid, Removes guid (s, .inform outcome) ↔
        outcome.removed = true ∧ runner.m_guid = guid := by
      intro guid
      constructor
      · rintro (⟨_, _, heq, _⟩ | ⟨outcome', req', runner', runners', heq, hremoved, hround', hguid⟩)
        · cases heq
        · rw [hround] at hround'
          obtain ⟨-, hrunners⟩ := ControlRound.informing.inj hround'
          obtain ⟨rfl, -⟩ := List.cons.inj hrunners
          obtain rfl := FleetEvent.inform.inj heq
          exact ⟨hremoved, hguid⟩
      · rintro ⟨hremoved, hguid⟩
        exact .inr ⟨outcome, req, runner, runners, rfl, hremoved, hround, hguid⟩
    rw [hremoves, hdb, informRunner]
    dsimp only
    split_ifs with hremoved
    · rw [mem_removeManagedInstance]
      simp [hremoved, eq_comm]
    · simp [hremoved]
  | expire hdb =>
    refine mem_of_removed (by simp) ?_
    rw [hdb]
    simp [Removes, deleteManagedInstanceStatusOlderThanXSec]
  | kept hdb hkeeps =>
    have hregister : ∀ env req, e ≠ .register env req := by
      rintro env req rfl
      exact hkeeps
    refine mem_of_removed hregister ?_
    have hremoves : ¬ Removes i.ServiceDescriptorGUID (s, e) := by
      rintro (⟨_, _, heq, _⟩ | ⟨_, _, _, _, heq, _⟩)
      · obtain rfl : e = _ := heq
        exact hkeeps
      · obtain rfl : e = _ := heq
        exact hkeeps
    rw [hdb]
    simp [hremoves]

theorem mem_statuses_next (h : s.next config e = some t) (status : ManagedInstanceStatus) :
    status ∈ t.db.managed_instances_statuses ↔ Reports config status (s, e) ∨
      status ∈ s.db.managed_instances_statuses ∧ ¬ Expires status (s, e) := by
  cases next_change h with
  | register hhandled =>
    rw [(registered_cases hhandled).2]
    simp [Reports, Expires]
  | @monitor managedInstance polling reply hpolling hmonitored =>
    have hexpires : ¬ Expires status (s, .monitor reply) := by simp [Expires]
    simp only [hexpires, not_false_eq_true, and_true]
    have hreports : Reports config status (s, .monitor reply) ↔ ∃ text stored,
        reply = .status text true ∧
          storeStatus managedInstance.2 config.rates text = some (some stored) ∧
          status = ⟨managedInstance.1.m_guid, s.now, stored⟩ := by
      constructor
      · rintro ⟨managedInstance', polling', text, stored, heq, hpolling', hstored, hstatus⟩
        rw [hpolling] at hpolling'
        obtain ⟨rfl, rfl⟩ := List.cons.inj hpolling'
        exact ⟨text, stored, FleetEvent.monitor.inj heq, hstored, hstatus⟩
      · rintro ⟨text, stored, rfl, hstored, hstatus⟩
        exact ⟨managedInstance, polling, text, stored, rfl, hpolling, hstored, hstatus⟩
    rw [hreports]
    cases reply with
    | unanswered removed =>
      obtain hdb := Option.some.inj hmonitored
      rw [← hdb]
      split <;> simp [removeManagedInstance]
    | otherMessage =>
      obtain hdb := Option.some.inj hmonitored
      rw [← hdb]
      simp
    | status text inserted =>
      obtain ⟨stored, hstored, hdb⟩ := Option.map_eq_some_iff.mp hmonitored
      rw [← hdb]
      cases inserted with
      | true =>
        cases stored with
        | none => simp [hstored]
        | some stored =>
          simp only [if_true]
          rw [insertStatus, List.mem_append, List.mem_singleton, or_comm]
          refine or_congr_left ?_
          constructor
          · exact fun hstatus => ⟨text, stored, rfl, hstored, hstatus⟩
          · rintro ⟨text', stored', heq, hstored', hstatus⟩
            obtain ⟨rfl, -⟩ := StatusReply.status.inj heq
            rw [hstored, Option.some.injEq, Option.some.injEq] at hstored'
            rw [hstatus, hstored']
      | false => cases stored <;> simp
  | @inform outcome req runner runners hround hdb =>
    rw [hdb, informRunner]
    dsimp only
    split_ifs <;> simp [Reports, Expires, removeManagedInstance]
  | expire hdb =>
    rw [hdb]
    simp [Reports, Expires, deleteManagedInstanceStatusOlderThanXSec]
  | kept hdb hkeeps =>
    have hreports : ¬ Reports config status (s, e) := by
      rintro ⟨_, _, _, _, heq, _⟩
      obtain rfl : e = _ := heq
      exact hkeeps
    have hexpires : ¬ Expires status (s, e) := by
      rintro ⟨heq, _⟩
      obtain rfl : e = _ := heq
      exact hkeeps
    rw [hdb]
    simp [hreports, hexpires]

/-! ### Whole runs -/

variable {db₀ : InstancesDB} {tr : List (Fleet × FleetEvent)}

/-- The last change of the row is a registration that writes it, or it was there from the start
and nothing changed it. -/
def RegisteredAfter (config : FleetConfig) (db₀ : InstancesDB) (tr : List (Fleet × FleetEvent))
    (i : ManagedInstance) : Prop :=
  LastChange (Writes config i) (Drops config i) (i ∈ db₀.managed_instances.rows) tr

/-- The status was reported and has not expired since. -/
def ReportedAfter (config : FleetConfig) (db₀ : InstancesDB) (tr : List (Fleet × FleetEvent))
    (status : ManagedInstanceStatus) : Prop :=
  LastChange (Reports config status) (Expires status) (status ∈ db₀.managed_instances_statuses) tr

theorem mem_instances_iff (h : Run (next config) (init db₀) tr s) (i : ManagedInstance) :
    i ∈ s.db.managed_instances.rows ↔ RegisteredAfter config db₀ tr i :=
  h.lastChange (fun s => i ∈ s.db.managed_instances.rows) _ _ fun hs => mem_instances_next hs i

theorem mem_statuses_iff (h : Run (next config) (init db₀) tr s) (status : ManagedInstanceStatus) :
    status ∈ s.db.managed_instances_statuses ↔ ReportedAfter config db₀ tr status :=
  h.lastChange (fun s => status ∈ s.db.managed_instances_statuses) _ _
    fun hs => mem_statuses_next hs status

/-- A round keeps the request it began with until it ends. -/
theorem round_next (h : s.next config e = some t) (req : SetTGsAndTEsRequest) :
    t.round.req = some req ↔ (∃ rows, e = .weigh rows ∧ buildRequest rows = some req) ∨
      s.round.req = some req ∧ ¬ e = .endRound := by
  cases e with
  | register env req =>
    obtain ⟨result, -, rfl⟩ := Option.map_eq_some_iff.mp h
    simp
  | monitor reply =>
    simp only [next] at h
    split at h
    · cases h
    · obtain ⟨db, -, rfl⟩ := Option.map_eq_some_iff.mp h
      simp
  | startMonitoring instances =>
    simp only [next] at h
    split_ifs at h
    obtain rfl := Option.some.inj h
    simp
  | weigh rows =>
    simp only [next] at h
    split at h
    · rename_i hround
      split_ifs at h
      obtain ⟨req', hreq', rfl⟩ := Option.map_eq_some_iff.mp h
      simp [ControlRound.req, hround, hreq']
    · cases h
  | listRunners runners =>
    simp only [next] at h
    split at h
    · rename_i req' hround
      split_ifs at h
      obtain rfl := Option.some.inj h
      simp [ControlRound.req, hround]
    · cases h
  | inform outcome =>
    simp only [next] at h
    split at h
    · rename_i req' runner runners hround
      obtain rfl := Option.some.inj h
      simp [ControlRound.req, hround]
    · cases h
  | endRound =>
    simp only [next] at h
    split at h
    · obtain rfl := Option.some.inj h
      simp [ControlRound.req]
    · cases h
  | tick | expire | restartRunner =>
    obtain rfl := Option.some.inj h
    simp

/-- A runner gets the request. -/
def Delivers (hostAndPort : String) (p : Fleet × FleetEvent) : Prop :=
  ∃ outcome req runner runners, p.2 = .inform outcome ∧ outcome.handled = true ∧
    p.1.round = .informing req (runner :: runners) ∧ runner.m_serviceHostAndPort = hostAndPort

/-- The runner has the lists of the request, ready to draw from. -/
structure Shows (partners : RunnerPartners) (req : SetTGsAndTEsRequest) : Prop where
  tgs : partners.m_tGManager.m_commDescriptorSet = req.tgs.elements
  tes : partners.m_tEManager.m_commDescriptorSet = req.tes.elements
  consistent : partners.m_tGManager.Consistent ∧ partners.m_tEManager.Consistent

theorem shows_handleFLUFFIMessage (partners : RunnerPartners) (req : SetTGsAndTEsRequest) :
    Shows (partners.handleFLUFFIMessage req) req where
  tgs := CommPartnerManager.updateCommPartners_set _ _
  tes := CommPartnerManager.updateCommPartners_set _ _
  consistent := ⟨CommPartnerManager.updateCommPartners_consistent _ _,
    CommPartnerManager.updateCommPartners_consistent _ _⟩

theorem shows_of_delivers (h : s.next config e = some t) (hdelivers : Delivers hostAndPort (s, e)) :
    ∃ req, s.round.req = some req ∧ Shows (t.runners hostAndPort) req := by
  obtain ⟨outcome, req, runner, runners, heq, hhandled, hround, rfl⟩ := hdelivers
  obtain rfl : e = _ := heq
  have hround : s.round = .informing req (runner :: runners) := hround
  refine ⟨req, by rw [hround]; rfl, ?_⟩
  simp only [next, hround] at h
  obtain rfl := Option.some.inj h
  rw [informRunner]
  dsimp only
  rw [if_pos hhandled, Function.update_self]
  exact shows_handleFLUFFIMessage _ _

/-- Other steps leave the lists of a runner alone. -/
theorem runners_next (h : s.next config e = some t) (hdelivers : ¬ Delivers hostAndPort (s, e))
    (hrestart : e ≠ .restartRunner hostAndPort) :
    t.runners hostAndPort = s.runners hostAndPort := by
  cases e with
  | register env req =>
    obtain ⟨result, -, rfl⟩ := Option.map_eq_some_iff.mp h
    rfl
  | monitor reply =>
    simp only [next] at h
    split at h
    · cases h
    · obtain ⟨db, -, rfl⟩ := Option.map_eq_some_iff.mp h
      rfl
  | startMonitoring instances =>
    simp only [next] at h
    split_ifs at h
    obtain rfl := Option.some.inj h
    rfl
  | weigh rows =>
    simp only [next] at h
    split at h
    · split_ifs at h
      obtain ⟨req', -, rfl⟩ := Option.map_eq_some_iff.mp h
      rfl
    · cases h
  | listRunners runners =>
    simp only [next] at h
    split at h
    · split_ifs at h
      obtain rfl := Option.some.inj h
      rfl
    · cases h
  | inform outcome =>
    simp only [next] at h
    split at h
    · rename_i req runner runners hround
      obtain rfl := Option.some.inj h
      rw [informRunner]
      dsimp only
      split_ifs with hhandled
      · refine Function.update_of_ne (fun heq => hdelivers ?_) _ _
        exact ⟨outcome, req, runner, runners, rfl, hhandled, hround, heq.symm⟩
      · rfl
    · cases h
  | endRound =>
    simp only [next] at h
    split at h
    · obtain rfl := Option.some.inj h
      rfl
    · cases h
  | restartRunner other =>
    obtain rfl := Option.some.inj h
    exact Function.update_of_ne (fun heq => hrestart (by rw [heq])) _ _
  | tick | expire =>
    obtain rfl := Option.some.inj h
    rfl

/-- A round in progress began with a query, and no round ended since. -/
theorem exists_weigh (h : Run (next config) (init db₀) tr s) {req : SetTGsAndTEsRequest}
    (hreq : s.round.req = some req) :
    ∃ pre t rows mid, tr = pre ++ (t, .weigh rows) :: mid ∧ (∀ p ∈ mid, p.2 ≠ .endRound) ∧
      buildRequest rows = some req := by
  have hlast := h.lastChange (fun s => s.round.req = some req)
    (fun p => ∃ rows, p.2 = .weigh rows ∧ buildRequest rows = some req) (fun p => p.2 = .endRound)
    fun hs => round_next hs req
  rcases hlast.mp hreq with ⟨hinitially, -⟩ | ⟨pre, ⟨t, e⟩, mid, rfl, ⟨rows, rfl, hbuilt⟩, hmid⟩
  · cases hinitially
  · exact ⟨pre, t, rows, mid, rfl, hmid, hbuilt⟩

/-- The answer of the query is as the tables were, so it can be read off the history. -/
theorem answer_of_run {pre mid : List (Fleet × FleetEvent)}
    {rows : Option (List (ManagedInstance × ManagedInstanceStatus))}
    (h : Run (next config) (init db₀) (pre ++ (t, .weigh rows) :: mid) s) :
    ∀ answer ∈ rows, StatusAnswer t.db config.location answer := by
  obtain ⟨-, u, hs, -⟩ := h.middle
  simp only [next] at hs
  split at hs
  · split_ifs at hs with hanswer
    exact hanswer
  · cases hs

/-- After a round has reached a runner, until the next one does or the runner is restarted, its
lists hold the generators and evaluators that were registered and had reported when the round
began, each drawn for as many numbers as its last report weighs: a hundred and the length of its
queue for a generator, a thousand less the length and at least a hundred for an evaluator. -/
theorem runner_partners_exact {config : FleetConfig} {db₀ : InstancesDB}
    {before after : List (Fleet × FleetEvent)} {s u : Fleet} {e : FleetEvent} {hostAndPort : String}
    (hrun : Run (next config) (init db₀) (before ++ (u, e) :: after) s)
    (hdelivered : Delivers hostAndPort (u, e))
    (hlast : ∀ p ∈ after, ¬ Delivers hostAndPort p ∧ p.2 ≠ .restartRunner hostAndPort) :
    ∃ pre t rows mid, before = pre ++ (t, .weigh rows) :: mid ∧ (∀ p ∈ mid, p.2 ≠ .endRound) ∧
      let tgs := (s.runners hostAndPort).m_tGManager
      let tes := (s.runners hostAndPort).m_tEManager
      (rows = none → tgs.m_commDescriptorSet = [] ∧ tes.m_commDescriptorSet = []) ∧
      (rows ≠ none →
        ExactPartners (RegisteredAfter config db₀ pre) (ReportedAfter config db₀ pre)
            config.location .TestcaseGenerator generatorWeight tgs.m_commDescriptorSet ∧
          ExactPartners (RegisteredAfter config db₀ pre) (ReportedAfter config db₀ pre)
            config.location .TestcaseEvaluator calculateEvaluatorWeight tes.m_commDescriptorSet) ∧
      (∀ i p, tgs.m_commDescriptorSet[i]? = some p → (tgs.drawsFor i).card = p.m_weight.toNat) ∧
      (∀ i p, tes.m_commDescriptorSet[i]? = some p → (tes.drawsFor i).card = p.m_weight.toNat) ∧
      (∀ general pending sent i guid time stored,
        addNewManagedInstanceStatus
          (TGGetStatusRequestHandler.generateStatus general pending sent) = some stored →
        ∃ weight, generatorWeight (statusOfInstance (i, ⟨guid, time, stored⟩)) = some weight ∧
          weight.toNat = if pending < 2 ^ 31 then 100 + pending else 100) ∧
      ∀ general size i guid time stored,
        addNewManagedInstanceStatus
          (TEGetStatusRequestHandler.generateStatus general size) = some stored →
        ∃ weight,
          calculateEvaluatorWeight (statusOfInstance (i, ⟨guid, time, stored⟩)) = some weight ∧
          weight.toNat = max 100 (1000 - size) := by
  obtain ⟨hbefore, v, hs, hafter⟩ := hrun.middle
  obtain ⟨req, hround, hshows⟩ := shows_of_delivers hs hdelivered
  have hsame : s.runners hostAndPort = v.runners hostAndPort :=
    hafter.history (G := fun s e => ¬ Delivers hostAndPort (s, e) ∧ e ≠ .restartRunner hostAndPort)
      (I := fun _ s => s.runners hostAndPort = v.runners hostAndPort) hlast rfl
      fun hI hG hs => (runners_next hs hG.1 hG.2).trans hI
  obtain ⟨pre, t, rows, mid, rfl, hmid, hbuilt⟩ := exists_weigh hbefore hround
  refine ⟨pre, t, rows, mid, rfl, hmid, ?_⟩
  rw [hsame]
  dsimp only
  rw [hshows.tgs, hshows.tes]
  have hpre := hbefore.middle.1
  refine ⟨?_, ?_, ?_, ?_, ?_, ?_⟩
  · rintro rfl
    exact buildRequest_none hbuilt
  · intro hrows
    obtain ⟨answer, rfl⟩ := Option.ne_none_iff_exists'.mp hrows
    obtain ⟨htgs, htes⟩ := buildRequest_exact (answer_of_run hbefore answer rfl) hbuilt
    exact ⟨htgs.congr (mem_instances_iff hpre) (mem_statuses_iff hpre),
      htes.congr (mem_instances_iff hpre) (mem_statuses_iff hpre)⟩
  · intro i p hp
    rw [← hshows.tgs] at hp
    exact CommPartnerManager.card_drawsFor hshows.consistent.1 hp
  · intro i p hp
    rw [← hshows.tes] at hp
    exact CommPartnerManager.card_drawsFor hshows.consistent.2 hp
  · exact generatorWeight_statusOfInstance
  · exact evaluatorWeight_statusOfInstance

/-! ### One round -/

def oneConfig : FleetConfig := ⟨⟨"L", "job", []⟩, Status.everySecond⟩

def oneGenerator : ManagedInstance := ⟨"g", "h:1", .TestcaseGenerator, ['A'], "L"⟩

def oneRunner : ManagedInstance := ⟨"r", "h:2", .TestcaseRunner, ['B'], "L"⟩

def oneStatus : ManagedInstanceStatus := ⟨"g", 0, "TestCasesQueueSize 5 |".toList⟩

def oneDB : InstancesDB := ⟨⟨[oneGenerator, oneRunner], by decide⟩, [oneStatus], .empty⟩

def oneWeighed : Fleet :=
  ((init oneDB).next oneConfig (.weigh (some [(oneGenerator, oneStatus)]))).get (by decide)

def oneListed : Fleet :=
  (oneWeighed.next oneConfig (.listRunners [oneRunner.descriptor])).get (by decide)

def oneInformed : Fleet := (oneListed.next oneConfig (.inform .answered)).get (by decide)

theorem runner_partners_exact_one :
    oneInformed.runners "h:2" ≠ .new ∧ ∃ pre t rows mid,
      [(init oneDB, .weigh (some [(oneGenerator, oneStatus)])),
        (oneWeighed, .listRunners [oneRunner.descriptor])] = pre ++ (t, .weigh rows) :: mid ∧
      ExactPartners (RegisteredAfter oneConfig oneDB pre) (ReportedAfter oneConfig oneDB pre) "L"
        .TestcaseGenerator generatorWeight
        (oneInformed.runners "h:2").m_tGManager.m_commDescriptorSet := by
  have hrun : Run (next oneConfig) (init oneDB)
      ([(init oneDB, .weigh (some [(oneGenerator, oneStatus)])),
        (oneWeighed, .listRunners [oneRunner.descriptor])] ++ [(oneListed, .inform .answered)])
      oneInformed :=
    .cons (Option.some_get _).symm
      (.cons (Option.some_get _).symm (.cons (Option.some_get _).symm .nil))
  have hdelivered : Delivers "h:2" (oneListed, .inform .answered) :=
    ⟨.answered, _, oneRunner.descriptor, [], rfl, rfl, rfl, rfl⟩
  obtain ⟨pre, t, rows, mid, heq, -, -, hexact, -⟩ :=
    runner_partners_exact hrun hdelivered (by simp)
  refine ⟨by decide, pre, t, rows, mid, heq, (hexact ?_).1⟩
  rintro rfl
  have hmem : (t, FleetEvent.weigh none) ∈ pre ++ (t, .weigh none) :: mid := by simp
  rw [← heq] at hmem
  simp at hmem

end Fleet

end Fluffi.LocalManager
