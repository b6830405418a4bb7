import Fluffi.LocalManager.Fleet

/-! What the lists of a runner hold after a request, and what the reports of the agents weigh. -/

namespace Fluffi.LocalManager

open Shared Systems Runner

/-! ### What the lists hold -/

/-- The weight is set, and nothing else. -/
def Weighed (weightOf : StatusOfInstance → Option UInt32) (before after : StatusOfInstance) :
    Prop :=
  weightOf before = some after.weight ∧ after = { before with weight := after.weight }

def generatorWeight (status : StatusOfInstance) : Option UInt32 :=
  some (calculateGeneratorWeight status)

theorem updateStatusInformation_spec {statusVector : List StatusOfInstance}
    {calculator result : WorkerWeightCalculator}
    (h : updateStatusInformation statusVector calculator = some result) :
    (∃ tgs, result.m_generatorStatus = calculator.m_generatorStatus ++ tgs ∧
        List.Forall₂ (Weighed generatorWeight)
          (statusVector.filter fun status => status.type = .TestcaseGenerator) tgs) ∧
      ∃ tes, result.m_evaluatorStatus = calculator.m_evaluatorStatus ++ tes ∧
        List.Forall₂ (Weighed calculateEvaluatorWeight)
          (statusVector.filter fun status => status.type = .TestcaseEvaluator) tes := by
  induction statusVector generalizing calculator with
  | nil =>
    obtain rfl := Option.some.inj h
    exact ⟨⟨[], (List.append_nil _).symm, .nil⟩, [], (List.append_nil _).symm, .nil⟩
  | cons status statusVector ih =>
    rw [updateStatusInformation] at h
    split at h
    · rename_i htype
      obtain ⟨⟨tgs, hgenerators, htgs⟩, tes, hevaluators, htes⟩ := ih h
      refine ⟨⟨_ :: tgs, by rw [hgenerators, List.append_assoc]; rfl, ?_⟩, tes, hevaluators, ?_⟩
      · rw [List.filter_cons_of_pos (by simpa using htype)]
        exact .cons ⟨rfl, rfl⟩ htgs
      · rwa [List.filter_cons_of_neg (by simp [htype])]
    · rename_i htype
      obtain ⟨weight, hweight, h⟩ := Option.bind_eq_some_iff.mp h
      obtain ⟨⟨tgs, hgenerators, htgs⟩, tes, hevaluators, htes⟩ := ih h
      refine ⟨⟨tgs, hgenerators, ?_⟩, _ :: tes, by rw [hevaluators, List.append_assoc]; rfl, ?_⟩
      · rwa [List.filter_cons_of_neg (by simp [htype])]
      · rw [List.filter_cons_of_pos (by simpa using htype)]
        exact .cons ⟨hweight, rfl⟩ htes
    · rename_i hgenerator hevaluator
      obtain ⟨⟨tgs, hgenerators, htgs⟩, tes, hevaluators, htes⟩ := ih h
      refine ⟨⟨tgs, hgenerators, ?_⟩, tes, hevaluators, ?_⟩
      · rwa [List.filter_cons_of_neg (by simpa using hgenerator)]
      · rwa [List.filter_cons_of_neg (by simpa using hevaluator)]

/-- The partners are the agents of a type that are registered at the location and have reported,
each once and with the weight by one of its newest reports. -/
structure ExactPartners (Registered : ManagedInstance → Prop)
    (Reported : ManagedInstanceStatus → Prop) (location : String) (type : AgentType)
    (weightOf : StatusOfInstance → Option UInt32) (ps : List FluffiServiceAndWeight) : Prop where
  nodup : (ps.map (·.m_serviceDescriptor.m_guid)).Nodup
  listed : ∀ i, Registered i → i.Location = location → i.AgentType = type →
    (∃ status, Reported status ∧ status.ServiceDescriptorGUID = i.ServiceDescriptorGUID) →
      i.descriptor ∈ ps.map (·.m_serviceDescriptor)
  justified : ∀ p ∈ ps, ∃ i status, Registered i ∧ i.Location = location ∧ i.AgentType = type ∧
    i.descriptor = p.m_serviceDescriptor ∧ Reported status ∧
    status.ServiceDescriptorGUID = i.ServiceDescriptorGUID ∧
    (∀ other, Reported other → other.ServiceDescriptorGUID = i.ServiceDescriptorGUID →
      other.TimeOfStatus ≤ status.TimeOfStatus) ∧
    weightOf (statusOfInstance (i, status)) = some p.m_weight

theorem ExactPartners.congr {Registered Registered' : ManagedInstance → Prop}
    {Reported Reported' : ManagedInstanceStatus → Prop} {location : String} {type : AgentType}
    {weightOf : StatusOfInstance → Option UInt32} {ps : List FluffiServiceAndWeight}
    (h : ExactPartners Registered Reported location type weightOf ps)
    (hregistered : ∀ i, Registered i ↔ Registered' i)
    (hreported : ∀ status, Reported status ↔ Reported' status) :
    ExactPartners Registered' Reported' location type weightOf ps := by
  obtain rfl : Registered = Registered' := funext fun i => propext (hregistered i)
  obtain rfl : Reported = Reported' := funext fun status => propext (hreported status)
  exact h

section Request

variable {db : InstancesDB} {location : String} {type : AgentType}
  {rows : List (ManagedInstance × ManagedInstanceStatus)}
  {weightOf : StatusOfInstance → Option UInt32} {weighed : List StatusOfInstance}

theorem Weighed.descriptor {before after : StatusOfInstance} (h : Weighed weightOf before after) :
    after.serviceAndWeight.m_serviceDescriptor = before.serviceAndWeight.m_serviceDescriptor := by
  rw [h.2]
  rfl

theorem Weighed.map_descriptor {statuses : List StatusOfInstance}
    (h : List.Forall₂ (Weighed weightOf) statuses weighed) :
    weighed.map (·.serviceAndWeight.m_serviceDescriptor) =
      statuses.map (·.serviceAndWeight.m_serviceDescriptor) := by
  induction h with
  | nil => rfl
  | cons hhead _ ih => rw [List.map_cons, List.map_cons, ih, hhead.descriptor]

theorem Weighed.exists_before {statuses : List StatusOfInstance} {after : StatusOfInstance}
    (h : List.Forall₂ (Weighed weightOf) statuses weighed) (hafter : after ∈ weighed) :
    ∃ before ∈ statuses, Weighed weightOf before after := by
  induction h with
  | nil => cases hafter
  | cons hhead _ ih =>
    rcases List.mem_cons.mp hafter with rfl | hafter
    · exact ⟨_, List.mem_cons_self, hhead⟩
    · obtain ⟨before, hbefore, hweighed⟩ := ih hafter
      exact ⟨before, List.mem_cons_of_mem _ hbefore, hweighed⟩

theorem StatusAnswer.mem_iff (h : StatusAnswer db location rows) (i : ManagedInstance) :
    i ∈ rows.map Prod.fst ↔ i ∈ db.managed_instances.rows ∧ i.Location = location ∧
      ∃ status ∈ db.managed_instances_statuses,
        status.ServiceDescriptorGUID = i.ServiceDescriptorGUID := by
  rw [h.1.mem_iff, List.mem_filter, decide_eq_true_eq]

theorem StatusAnswer.nodup (h : StatusAnswer db location rows) :
    (rows.map (·.1.ServiceDescriptorGUID)).Nodup := by
  have hkeys : (db.managed_instances.rows.map (·.ServiceDescriptorGUID)).Nodup :=
    List.pairwise_map.mpr db.managed_instances.unique
  have hperm := h.1.map (·.ServiceDescriptorGUID)
  rw [List.map_map] at hperm
  exact hperm.nodup_iff.mpr (hkeys.sublist (List.filter_sublist.map _))

/-- The weighed answer of the query holds the agents of a type with their weights. -/
theorem exactPartners_of_weighed (h : StatusAnswer db location rows)
    (hweighed : List.Forall₂ (Weighed weightOf)
      ((rows.map statusOfInstance).reverse.filter fun status => status.type = type) weighed) :
    ExactPartners (· ∈ db.managed_instances.rows) (· ∈ db.managed_instances_statuses) location type
      weightOf (weighed.map StatusOfInstance.serviceAndWeight) := by
  rw [← List.map_reverse, List.filter_map] at hweighed
  have hdescriptors : (weighed.map StatusOfInstance.serviceAndWeight).map (·.m_serviceDescriptor) =
      (rows.reverse.filter fun row => row.1.AgentType = type).map fun row => row.1.descriptor := by
    have hmap := Weighed.map_descriptor hweighed
    rw [List.map_map] at hmap ⊢
    exact hmap
  refine ⟨?_, fun i hi hlocation htype hstatus => ?_, fun p hp => ?_⟩
  · have hguids : (weighed.map StatusOfInstance.serviceAndWeight).map
        (·.m_serviceDescriptor.m_guid) = (rows.reverse.filter fun row =>
          row.1.AgentType = type).map (·.1.ServiceDescriptorGUID) := by
      have hmap := congrArg (List.map (·.m_guid)) hdescriptors
      simp only [List.map_map] at hmap ⊢
      exact hmap
    rw [hguids]
    refine List.Nodup.sublist (List.filter_sublist.map _) ?_
    rw [List.map_reverse, List.nodup_reverse]
    exact h.nodup
  · obtain ⟨row, hrow, rfl⟩ := List.mem_map.mp ((h.mem_iff i).mpr ⟨hi, hlocation, hstatus⟩)
    rw [hdescriptors]
    have hfiltered : row ∈ rows.reverse.filter fun row => row.1.AgentType = type :=
      List.mem_filter.mpr ⟨List.mem_reverse.mpr hrow, decide_eq_true htype⟩
    exact List.mem_map_of_mem (f := fun row : ManagedInstance × ManagedInstanceStatus =>
      row.1.descriptor) hfiltered
  · obtain ⟨after, hafter, rfl⟩ := List.mem_map.mp hp
    obtain ⟨before, hbefore, hweight⟩ := Weighed.exists_before hweighed hafter
    obtain ⟨row, hrow, rfl⟩ := List.mem_map.mp hbefore
    obtain ⟨hrow, htype⟩ := List.mem_filter.mp hrow
    rw [List.mem_reverse] at hrow
    obtain ⟨hregistered, hlocation, -⟩ := (h.mem_iff row.1).mp (List.mem_map_of_mem hrow)
    obtain ⟨hreported, hguid, hnewest⟩ := h.2 row hrow
    exact ⟨row.1, row.2, hregistered, hlocation, of_decide_eq_true htype,
      hweight.descriptor.symm, hreported, hguid,
      fun other hother heq => hnewest other hother (heq.trans hguid.symm), hweight.1⟩

/-- The lists of a request that was built of an answer. -/
theorem buildRequest_exact (h : StatusAnswer db location rows) {req : SetTGsAndTEsRequest}
    (hreq : buildRequest (some rows) = some req) :
    ExactPartners (· ∈ db.managed_instances.rows) (· ∈ db.managed_instances_statuses) location
        .TestcaseGenerator generatorWeight req.tgs.elements ∧
      ExactPartners (· ∈ db.managed_instances.rows) (· ∈ db.managed_instances_statuses) location
        .TestcaseEvaluator calculateEvaluatorWeight req.tes.elements := by
  obtain ⟨calculator, hcalculator, hbuilt⟩ := Option.bind_eq_some_iff.mp hreq
  obtain ⟨⟨tgs, htgs, hgenerators⟩, tes, htes, hevaluators⟩ :=
    updateStatusInformation_spec hcalculator
  dsimp only at hbuilt
  split_ifs at hbuilt with hsize
  obtain rfl := Option.some.inj hbuilt
  rw [List.nil_append] at htgs htes
  simp only [htgs, htes]
  exact ⟨exactPartners_of_weighed h hgenerators, exactPartners_of_weighed h hevaluators⟩

theorem buildRequest_none {req : SetTGsAndTEsRequest} (hreq : buildRequest none = some req) :
    req.tgs.elements = [] ∧ req.tes.elements = [] := by
  obtain ⟨calculator, hcalculator, hbuilt⟩ := Option.bind_eq_some_iff.mp hreq
  obtain rfl := Option.some.inj hcalculator
  dsimp only at hbuilt
  split_ifs at hbuilt
  obtain rfl := Option.some.inj hbuilt
  exact ⟨rfl, rfl⟩

end Request

/-! ### What a report weighs -/

section Reports

variable {general : GeneralStatus} {qs : List StatusPair} {key value : List Char}

def generalPairs (general : GeneralStatus) : List StatusPair :=
  [("SysCPUUtil".toList, general.systemCPU), ("ProcCPUUtil".toList, general.processCPU),
    ("AverageRTT".toList, general.averageRTT)]

def generalKeys : List (List Char) :=
  ["SysCPUUtil".toList, "ProcCPUUtil".toList, "AverageRTT".toList]

/-- No character of the text has a meaning in a status. -/
def Plain (text : List Char) : Prop := ∀ c ∈ text, c ≠ ' ' ∧ c ≠ '|' ∧ c ≠ '\x00'

theorem plain_of_all {text : List Char}
    (h : (text.all fun c => c ≠ ' ' && c ≠ '|' && c ≠ '\x00') = true) : Plain text := by
  intro c hc
  simpa [and_assoc] using List.all_eq_true.mp h c hc

theorem Plain.append {text text' : List Char} (h : Plain text) (h' : Plain text') :
    Plain (text ++ text') := by
  intro c hc
  exact (List.mem_append.mp hc).elim (h c) (h' c)

theorem plain_toDigits (n : ℕ) : Plain (Nat.toDigits 10 n) := by
  intro c hc
  have hdigit : c.isDigit = true := Nat.isDigit_of_mem_toDigits (by decide) (by decide) hc
  refine ⟨?_, ?_, ?_⟩ <;> rintro rfl <;> exact absurd hdigit (by decide)

theorem plain_generalPairs (general : GeneralStatus) :
    ∀ p ∈ generalPairs general, Plain (p.1 ++ p.2) := by
  have hclean := general.clean
  have hpart : ∀ text, text ⊆ general.systemCPU ++ general.processCPU ++ general.averageRTT →
      Plain text := fun text hsub c hc => hclean c (hsub hc)
  have hsystem : Plain "SysCPUUtil".toList := plain_of_all (by decide)
  have hprocess : Plain "ProcCPUUtil".toList := plain_of_all (by decide)
  have haverage : Plain "AverageRTT".toList := plain_of_all (by decide)
  intro p hp
  simp only [generalPairs, List.mem_cons, List.not_mem_nil, or_false] at hp
  rcases hp with rfl | rfl | rfl
  · exact hsystem.append (hpart _ (by simp))
  · exact hprocess.append (hpart _ (by simp))
  · exact haverage.append (hpart _ (by simp))

/-- A key that comes once in a report has its value in the stored status. -/
theorem statusOf_report (hplain : ∀ q ∈ qs, Plain (q.1 ++ q.2))
    (hdistinct : (generalKeys ++ qs.map Prod.fst).Nodup) (hmem : (key, value) ∈ qs)
    {stored : List Char}
    (hstored : addNewManagedInstanceStatus
      (general.text ++ qs.flatMap fun q => ' ' :: statusPart q) = some stored) :
    statusOf stored key = some value := by
  have hall : ∀ p ∈ generalPairs general ++ qs, Plain (p.1 ++ p.2) := by
    intro p hp
    exact (List.mem_append.mp hp).elim (plain_generalPairs general p) (hplain p)
  have hclean : ∀ p ∈ generalPairs general ++ qs, CleanPair p :=
    fun p hp c hc => ⟨(hall p hp c hc).1, (hall p hp c hc).2.1⟩
  have hzero : ∀ p ∈ generalPairs general ++ qs, '\x00' ∉ p.1 ++ p.2 :=
    fun p hp hc => (hall p hp _ hc).2.2 rfl
  have htext : (general.text ++ qs.flatMap fun q => ' ' :: statusPart q) =
      encodeStatus (generalPairs general ++ qs) := generateGeneralStatus_append _ _ _ qs
  rw [htext, addNewManagedInstanceStatus_eq_some_iff hzero] at hstored
  rw [hstored.2, statusOf_encodeStatus hclean hzero, mapOf_eq_some_iff]
  · exact List.mem_append_right _ hmem
  · have hkeys : ((generalPairs general ++ qs).map Prod.fst).Nodup := by
      rw [List.map_append]
      exact hdistinct
    intro key value value' h h'
    exact congrArg Prod.snd (List.inj_on_of_nodup_map hkeys h h' rfl)

theorem unsignedOf_natCast {n : ℕ} (h : n < 2 ^ 32) : (unsignedOf (n : ℤ)).toNat = n := by
  have hmod : ((n : ℤ) % 2 ^ 32).toNat = n := by omega
  rw [unsignedOf, hmod, UInt32.toNat_ofNat_of_lt' h]

theorem stoi_toDigits_none {n : ℕ} (h : 2 ^ 31 ≤ n) : stoi (Nat.toDigits 10 n) = none := by
  rw [stoi_eq, integerOf_toDigits, Option.filter_some, if_neg]
  rw [decide_eq_true_eq]
  rintro ⟨-, hlt⟩
  omega

/-- A generator weighs a hundred and the length of its queue; one that does not fit an `int` is
not counted. -/
theorem generatorWeight_report {status : StatusOfInstance} {pending sent : ℕ}
    {stored : List Char} (h : status.status = statusOf stored)
    (hstored : addNewManagedInstanceStatus
      (TGGetStatusRequestHandler.generateStatus general pending sent) = some stored) :
    (calculateGeneratorWeight status).toNat = if pending < 2 ^ 31 then 100 + pending else 100 := by
  have htext : TGGetStatusRequestHandler.generateStatus general pending sent =
      general.text ++ [("TestCasesQueueSize".toList, Nat.toDigits 10 pending),
        ("TestCasesWithoutResponse".toList, Nat.toDigits 10 sent)].flatMap
          fun q => ' ' :: statusPart q := by
    simp [TGGetStatusRequestHandler.generateStatus, statusPart]
  have hvalue : status.status "TestCasesQueueSize".toList = some (Nat.toDigits 10 pending) := by
    have hqueue : Plain "TestCasesQueueSize".toList := plain_of_all (by decide)
    have hsent : Plain "TestCasesWithoutResponse".toList := plain_of_all (by decide)
    have hdistinct : (generalKeys ++ ["TestCasesQueueSize".toList,
      "TestCasesWithoutResponse".toList]).Nodup := by decide
    rw [htext] at hstored
    rw [h]
    refine statusOf_report ?_ (by exact hdistinct) List.mem_cons_self hstored
    intro q hq
    simp only [List.mem_cons, List.not_mem_nil, or_false] at hq
    rcases hq with rfl | rfl
    · exact hqueue.append (plain_toDigits pending)
    · exact hsent.append (plain_toDigits sent)
  rw [calculateGeneratorWeight, hvalue, Option.bind_some]
  split_ifs with hpending
  · rw [stoi_toDigits hpending]
    show (100 + unsignedOf (pending : ℤ)).toNat = _
    rw [UInt32.toNat_add, unsignedOf_natCast (by omega)]
    simp only [UInt32.reduceToNat]
    omega
  · rw [stoi_toDigits_none (by omega)]
    rfl

/-- An evaluator weighs a thousand less the length of its queue, and a hundred at least. -/
theorem evaluatorWeight_report {status : StatusOfInstance} {size : ℕ} {stored : List Char}
    (h : status.status = statusOf stored)
    (hstored : addNewManagedInstanceStatus
      (TEGetStatusRequestHandler.generateStatus general size) = some stored) :
    ∃ weight, calculateEvaluatorWeight status = some weight ∧
      weight.toNat = max 100 (1000 - size) := by
  have htext : TEGetStatusRequestHandler.generateStatus general size =
      general.text ++ [("TestEvaluationsQueueSize".toList, Nat.toDigits 10 size)].flatMap
        fun q => ' ' :: statusPart q := by
    simp [TEGetStatusRequestHandler.generateStatus, statusPart]
  have hvalue : status.status "TestEvaluationsQueueSize".toList = some (Nat.toDigits 10 size) := by
    have hqueue : Plain "TestEvaluationsQueueSize".toList := plain_of_all (by decide)
    have hdistinct : (generalKeys ++ ["TestEvaluationsQueueSize".toList]).Nodup := by decide
    rw [htext] at hstored
    rw [h]
    refine statusOf_report ?_ (by exact hdistinct) List.mem_cons_self hstored
    intro q hq
    rw [List.mem_singleton] at hq
    subst hq
    exact hqueue.append (plain_toDigits size)
  rw [calculateEvaluatorWeight, hvalue, Option.bind_some]
  by_cases hsize : size < 2 ^ 31
  · rw [stoi_toDigits hsize]
    have hint : IsInt (1000 - (size : ℤ)) := ⟨by omega, by omega⟩
    refine ⟨unsignedOf (max 100 (1000 - (size : ℤ))), by
      show (toInt _).map _ = _
      rw [toInt, if_pos hint]
      rfl, ?_⟩
    have hmax : max 100 (1000 - (size : ℤ)) = ((max 100 (1000 - size) : ℕ) : ℤ) := by omega
    rw [hmax, unsignedOf_natCast (by omega)]
  · rw [stoi_toDigits_none (by omega)]
    refine ⟨100, rfl, ?_⟩
    simp only [UInt32.reduceToNat]
    omega

theorem generatorWeight_statusOfInstance (general : GeneralStatus) (pending sent : ℕ)
    (i : ManagedInstance) (guid : String) (time : ℕ) (stored : List Char)
    (hstored : addNewManagedInstanceStatus
      (TGGetStatusRequestHandler.generateStatus general pending sent) = some stored) :
    ∃ weight, generatorWeight (statusOfInstance (i, ⟨guid, time, stored⟩)) = some weight ∧
      weight.toNat = if pending < 2 ^ 31 then 100 + pending else 100 := by
  refine ⟨calculateGeneratorWeight (statusOfInstance (i, ⟨guid, time, stored⟩)), rfl, ?_⟩
  refine generatorWeight_report ?_ hstored
  rw [statusOfInstance]

theorem evaluatorWeight_statusOfInstance (general : GeneralStatus) (size : ℕ)
    (i : ManagedInstance) (guid : String) (time : ℕ) (stored : List Char)
    (hstored : addNewManagedInstanceStatus
      (TEGetStatusRequestHandler.generateStatus general size) = some stored) :
    ∃ weight,
      calculateEvaluatorWeight (statusOfInstance (i, ⟨guid, time, stored⟩)) = some weight ∧
      weight.toNat = max 100 (1000 - size) := by
  refine evaluatorWeight_report ?_ hstored
  rw [statusOfInstance]

end Reports

end Fluffi.LocalManager
