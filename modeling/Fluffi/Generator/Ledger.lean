import Fluffi.Generator.Manager

/-! Sequences of calls on the queue manager, with books kept next to it. Every
push gets the next number as its mark, and the ledger notes what was pushed,
popped, reinserted, dropped as evaluated and handed out. Erasing the marks gives
back the plain manager. Proved: the books balance, a counter is the one that was
pushed plus the pops since, and testcases that never came back leave in push
order. -/

namespace Fluffi.Generator

open Shared TestcaseDescriptor

/-- One call on the manager. -/
inductive ManagerCall
  | pushNewGeneratedTestcase (newTestcase : TestcaseDescriptor Unit)
  | pushNewGeneratedTestcases (newTestcases : List (TestcaseDescriptor Unit))
  | popPendingTCForProcessing (now : ℤ)
  | removeEvaluatedTestcases (evaluatedTestcases : List FluffiTestcaseID)
  | reinsertTestcasesHavingNoAnswerSince (timeBeforeWhichShouldBeReinserted : ℤ)
  | handMeAllTestcasesWithTooManyRetries (maxRetriesBeforeReport : ℤ)

/-- The descriptors a call pushes. -/
def ManagerCall.pushes : ManagerCall → List (TestcaseDescriptor Unit)
  | .pushNewGeneratedTestcase d => [d]
  | .pushNewGeneratedTestcases ds => ds
  | _ => []

/-- The manager after a call. A pop that throws leaves it as it was. -/
def TGTestcaseManager.call (m : TGTestcaseManager Unit) : ManagerCall → TGTestcaseManager Unit
  | .pushNewGeneratedTestcase d => m.pushNewGeneratedTestcase d
  | .pushNewGeneratedTestcases ds => m.pushNewGeneratedTestcases ds
  | .popPendingTCForProcessing now =>
    match m.popPendingTCForProcessing now with
    | .ok (_, m') => m'
    | .error _ => m
  | .removeEvaluatedTestcases ids => (m.removeEvaluatedTestcases ids).2
  | .reinsertTestcasesHavingNoAnswerSince before => m.reinsertTestcasesHavingNoAnswerSince before
  | .handMeAllTestcasesWithTooManyRetries max => (m.handMeAllTestcasesWithTooManyRetries max).2

/-- The manager with its books. -/
structure Ledger where
  manager : TGTestcaseManager ℕ
  pushed : List (TestcaseDescriptor ℕ)
  popped : List (TestcaseDescriptor ℕ)
  reinserted : List (TestcaseDescriptor ℕ)
  dropped : List (TestcaseDescriptor ℕ)
  handedOut : List (TestcaseDescriptor ℕ)

namespace Ledger

def empty : Ledger := ⟨.empty, [], [], [], [], []⟩

/-- Mark descriptors with consecutive numbers from `n` on. -/
def number (n : ℕ) (ds : List (TestcaseDescriptor Unit)) : List (TestcaseDescriptor ℕ) :=
  (ds.zipIdx n).map fun p => p.1.withMark p.2

def push (L : Ledger) (ds : List (TestcaseDescriptor Unit)) : Ledger :=
  let numbered := number L.pushed.length ds
  { L with
    manager := L.manager.pushNewGeneratedTestcases numbered
    pushed := L.pushed ++ numbered }

def call (L : Ledger) : ManagerCall → Ledger
  | .pushNewGeneratedTestcase d => L.push [d]
  | .pushNewGeneratedTestcases ds => L.push ds
  | .popPendingTCForProcessing now =>
    match L.manager.popPendingTCForProcessing now with
    | .ok (d, m) => { L with manager := m, popped := L.popped ++ [d] }
    | .error _ => L
  | .removeEvaluatedTestcases ids =>
    let (gone, m) := L.manager.removeEvaluatedTestcases ids
    { L with manager := m, dropped := L.dropped ++ gone }
  | .reinsertTestcasesHavingNoAnswerSince before =>
    { L with
      manager := L.manager.reinsertTestcasesHavingNoAnswerSince before
      reinserted := L.reinserted ++
        (L.manager.takeOut fun it => it.m_timeOfLastSend < before).1 }
  | .handMeAllTestcasesWithTooManyRetries max =>
    let (gone, m) := L.manager.handMeAllTestcasesWithTooManyRetries max
    { L with manager := m, handedOut := L.handedOut ++ gone }

/-- The books after a sequence of calls on the empty manager. -/
def of (calls : List ManagerCall) : Ledger := calls.foldl call empty

/-- Every descriptor the books account for. -/
def accounted (L : Ledger) : Multiset (TestcaseDescriptor ℕ) :=
  L.manager.m_pendingTestcaseQueue + L.manager.m_sentButNotEvaluatedTestcaseSet +
    L.dropped + L.handedOut

/-- How often the testcase of push number `n` was popped. -/
def popsOf (L : Ledger) (n : ℕ) : ℕ := L.popped.countP (·.mark = n)

/-- The testcase of push number `n` never came back from the sent set. -/
def neverReinserted (L : Ledger) (n : ℕ) : Bool := !decide (n ∈ L.reinserted.map mark)

/-- The marks, in the order in which the testcases left or will leave, of what
was never reinserted. -/
def departures (L : Ledger) : List ℕ :=
  ((L.popped ++ L.manager.m_pendingTestcaseQueue).map mark).filter L.neverReinserted

/-! ### The marks are the push numbers -/

theorem number_mark (n : ℕ) (ds : List (TestcaseDescriptor Unit)) :
    (number n ds).map mark = List.range' n ds.length := by
  simp only [number, List.map_map]
  exact List.zipIdx_map_snd n ds

theorem number_erase (n : ℕ) (ds : List (TestcaseDescriptor Unit)) :
    (number n ds).map TestcaseDescriptor.erase = ds := by
  simp only [number, List.map_map]
  exact List.zipIdx_map_fst n ds

theorem number_length (n : ℕ) (ds : List (TestcaseDescriptor Unit)) :
    (number n ds).length = ds.length := by simp [number]

theorem le_mark_of_mem_number {n : ℕ} {ds : List (TestcaseDescriptor Unit)}
    {d : TestcaseDescriptor ℕ} (hd : d ∈ number n ds) : n ≤ d.mark := by
  have hm : d.mark ∈ List.range' n ds.length := number_mark n ds ▸ List.mem_map_of_mem hd
  exact (List.mem_range'_1.mp hm).1

/-- Erasing the marks commutes with every call. -/
theorem erase_call (L : Ledger) (c : ManagerCall) :
    (L.call c).manager.erase = L.manager.erase.call c := by
  cases c with
  | pushNewGeneratedTestcase d =>
    simp only [call, push, TGTestcaseManager.erase_pushes, number_erase]
    rfl
  | pushNewGeneratedTestcases ds =>
    simp only [call, push, TGTestcaseManager.erase_pushes, number_erase]
    rfl
  | popPendingTCForProcessing now =>
    rcases L.manager.pop_cases now with ⟨hp, he⟩ | ⟨front, rest, hp, he⟩
    · simp only [call, TGTestcaseManager.call, TGTestcaseManager.popPendingTCForProcessing,
        TGTestcaseManager.erase, hp, List.map_nil]
    · simp only [call, TGTestcaseManager.call, TGTestcaseManager.popPendingTCForProcessing,
        TGTestcaseManager.erase, hp, List.map_cons, List.map_append, List.map_nil, erase_send]
  | removeEvaluatedTestcases ids =>
    exact L.manager.erase_takeOut (TGTestcaseManager.isEvaluated ids)
  | reinsertTestcasesHavingNoAnswerSince before => exact L.manager.erase_reinsert before
  | handMeAllTestcasesWithTooManyRetries max =>
    exact L.manager.erase_takeOut fun it => max ≤ (it.m_numOfProcessingAttempts : ℤ)

theorem erase_of (calls : List ManagerCall) :
    (of calls).manager.erase = calls.foldl TGTestcaseManager.call .empty := by
  induction calls using List.reverseRecOn with
  | nil => rfl
  | append_singleton calls c ih =>
    rw [of, List.foldl_append, List.foldl_append, ← ih]
    exact erase_call _ c

theorem pushed_call (L : Ledger) (c : ManagerCall) :
    (L.call c).pushed.map TestcaseDescriptor.erase =
      L.pushed.map TestcaseDescriptor.erase ++ c.pushes := by
  cases c with
  | pushNewGeneratedTestcase d => simp [call, push, ManagerCall.pushes, number_erase]
  | pushNewGeneratedTestcases ds => simp [call, push, ManagerCall.pushes, number_erase]
  | popPendingTCForProcessing now =>
    rcases L.manager.pop_cases now with ⟨_, he⟩ | ⟨front, rest, _, he⟩ <;>
      simp [call, he, ManagerCall.pushes]
  | removeEvaluatedTestcases ids => simp [call, ManagerCall.pushes]
  | reinsertTestcasesHavingNoAnswerSince before => simp [call, ManagerCall.pushes]
  | handMeAllTestcasesWithTooManyRetries max => simp [call, ManagerCall.pushes]

/-- The books hold what the calls pushed, in push order. -/
theorem pushed_of (calls : List ManagerCall) :
    (of calls).pushed.map TestcaseDescriptor.erase = calls.flatMap ManagerCall.pushes := by
  induction calls using List.reverseRecOn with
  | nil => rfl
  | append_singleton calls c ih =>
    rw [of, List.foldl_append, List.flatMap_append, ← ih, List.flatMap_singleton]
    exact pushed_call _ c

/-! ### The invariant of the books -/

/-- What holds between any two calls. -/
structure Inv (L : Ledger) : Prop where
  marks : L.pushed.map mark = List.range L.pushed.length
  balance : (L.pushed : Multiset (TestcaseDescriptor ℕ)).map testcase =
    L.accounted.map testcase
  popped_lt : ∀ d ∈ L.popped, d.mark < L.pushed.length
  counted : ∀ d ∈ L.accounted, ∃ p, L.pushed[d.mark]? = some p ∧
    d.m_numOfProcessingAttempts = p.m_numOfProcessingAttempts + L.popsOf d.mark
  ordered : L.departures.Pairwise (· < ·)

theorem inv_empty : Inv empty where
  marks := rfl
  balance := rfl
  popped_lt := by simp [empty]
  counted := by simp [empty, accounted, TGTestcaseManager.empty]
  ordered := List.Pairwise.nil

/-- The marks of all accounted descriptors are the push numbers, each once. -/
theorem Inv.accounted_marks {L : Ledger} (h : Inv L) :
    L.accounted.map mark = (List.range L.pushed.length : Multiset ℕ) := by
  have hm : (mark : TestcaseDescriptor ℕ → ℕ) = mark ∘ testcase := rfl
  rw [hm, ← Multiset.map_map, ← h.balance, Multiset.map_map, ← hm, Multiset.map_coe, h.marks]

theorem Inv.mark_lt {L : Ledger} (h : Inv L) {d : TestcaseDescriptor ℕ} (hd : d ∈ L.accounted) :
    d.mark < L.pushed.length := by
  have hm : d.mark ∈ L.accounted.map mark := Multiset.mem_map_of_mem mark hd
  rw [h.accounted_marks, Multiset.mem_coe, List.mem_range] at hm
  exact hm

/-- A descriptor shares its mark with no other accounted one. -/
theorem Inv.mark_ne {L : Ledger} (h : Inv L) {d e : TestcaseDescriptor ℕ}
    {rest : Multiset (TestcaseDescriptor ℕ)} (hL : L.accounted = d ::ₘ rest) (he : e ∈ rest) :
    e.mark ≠ d.mark := by
  have hn : (L.accounted.map mark).Nodup := by
    rw [h.accounted_marks, Multiset.coe_nodup]
    exact List.nodup_range
  rw [hL, Multiset.map_cons, Multiset.nodup_cons] at hn
  intro heq
  exact hn.1 (heq ▸ Multiset.mem_map_of_mem mark he)

theorem accounted_push (L : Ledger) (ds : List (TestcaseDescriptor Unit)) :
    (L.push ds).accounted = L.accounted + (number L.pushed.length ds : List _) := by
  simp only [accounted, push, TGTestcaseManager.pushNewGeneratedTestcases, ← Multiset.coe_add]
  ac_rfl

theorem popsOf_of_le {L : Ledger} (h : Inv L) {n : ℕ} (hn : L.pushed.length ≤ n) :
    L.popsOf n = 0 := by
  rw [popsOf, List.countP_eq_zero]
  intro d hd
  have := h.popped_lt d hd
  simp only [decide_eq_true_eq]
  omega

/-- A descriptor numbered from the end of the books on is found there. -/
theorem getElem?_number {ps : List (TestcaseDescriptor ℕ)} {ds : List (TestcaseDescriptor Unit)}
    {d : TestcaseDescriptor ℕ} (hd : d ∈ number ps.length ds) :
    (ps ++ number ps.length ds)[d.mark]? = some d := by
  obtain ⟨i, hi, rfl⟩ := List.mem_iff_getElem.mp hd
  have hm : ((number ps.length ds)[i]).mark = ps.length + i := by
    have := List.getElem_map mark (l := number ps.length ds) (i := i) (h := by simpa using hi)
    rw [← this]
    simp [number_mark]
  rw [hm, List.getElem?_append_right (by omega), Nat.add_sub_cancel_left]
  exact List.getElem?_eq_getElem hi

theorem Inv.push {L : Ledger} (h : Inv L) (ds : List (TestcaseDescriptor Unit)) :
    Inv (L.push ds) where
  marks := by
    simp only [Ledger.push, List.map_append, h.marks, number_mark, List.length_append,
      number_length, List.range_eq_range']
    rw [← List.range'_append_1, Nat.zero_add]
  balance := by
    rw [accounted_push, Multiset.map_add, ← h.balance, ← Multiset.map_add, Multiset.coe_add]
    rfl
  popped_lt d hd := by
    have := h.popped_lt d hd
    simp only [Ledger.push, List.length_append]
    omega
  counted d hd := by
    rw [accounted_push, Multiset.mem_add] at hd
    rcases hd with hd | hd
    · obtain ⟨p, hp, hc⟩ := h.counted d hd
      exact ⟨p, by rw [← hp]; exact List.getElem?_append_left (h.mark_lt hd), hc⟩
    · have hp : L.popsOf d.mark = 0 := popsOf_of_le h (le_mark_of_mem_number hd)
      exact ⟨d, getElem?_number hd, by simpa [popsOf, Ledger.push] using hp⟩
  ordered := by
    have hsplit : (L.push ds).departures = L.departures ++
        ((number L.pushed.length ds).map mark).filter L.neverReinserted := by
      simp only [departures, Ledger.push, TGTestcaseManager.pushNewGeneratedTestcases,
        ← List.append_assoc, List.map_append, List.filter_append]
      rfl
    rw [hsplit, List.pairwise_append]
    refine ⟨h.ordered, ?_, ?_⟩
    · rw [number_mark]
      exact List.Pairwise.filter _ List.pairwise_lt_range'
    · intro a ha b hb
      have hb' : L.pushed.length ≤ b := by
        have hb := List.mem_of_mem_filter hb
        rw [number_mark] at hb
        exact (List.mem_range'_1.mp hb).1
      have ha' : a < L.pushed.length := by
        obtain ⟨d, hd, rfl⟩ := List.mem_map.mp (List.mem_of_mem_filter ha)
        rcases List.mem_append.mp hd with hd | hd
        · exact h.popped_lt d hd
        · exact h.mark_lt (by simp [accounted, hd])
      omega

/-- A call that only moves accounted descriptors and lets no testcase overtake
another keeps the books. -/
theorem Inv.move {L L' : Ledger} (h : Inv L) (hpushed : L'.pushed = L.pushed)
    (hpopped : L'.popped = L.popped) (haccounted : L'.accounted = L.accounted)
    (hdepartures : L'.departures.Sublist L.departures) : Inv L' where
  marks := hpushed ▸ h.marks
  balance := by rw [hpushed, haccounted]; exact h.balance
  popped_lt := by rw [hpushed, hpopped]; exact h.popped_lt
  counted d hd := by
    obtain ⟨p, hp, hc⟩ := h.counted d (haccounted ▸ hd)
    exact ⟨p, hpushed ▸ hp, by rw [hc, popsOf, popsOf, hpopped]⟩
  ordered := h.ordered.sublist hdepartures

theorem Inv.removeEvaluated {L : Ledger} (h : Inv L) (ids : List FluffiTestcaseID) :
    Inv (L.call (.removeEvaluatedTestcases ids)) := by
  refine h.move rfl rfl ?_ (List.Sublist.refl _)
  simp only [call, TGTestcaseManager.removeEvaluated_eq, accounted, ← Multiset.coe_add]
  conv_rhs => rw [← TGTestcaseManager.coe_filter_add L.manager.m_sentButNotEvaluatedTestcaseSet
    (TGTestcaseManager.isEvaluated ids)]
  ac_rfl

theorem Inv.handMe {L : Ledger} (h : Inv L) (max : ℤ) :
    Inv (L.call (.handMeAllTestcasesWithTooManyRetries max)) := by
  refine h.move rfl rfl ?_ (List.Sublist.refl _)
  simp only [call, TGTestcaseManager.handMe_eq, accounted, ← Multiset.coe_add]
  conv_rhs => rw [← TGTestcaseManager.coe_filter_add L.manager.m_sentButNotEvaluatedTestcaseSet
    (fun it => max ≤ (it.m_numOfProcessingAttempts : ℤ))]
  ac_rfl

/-- What is reinserted leaves the departures, and nothing else changes in them. -/
theorem departures_reinsert (L : Ledger) (before : ℤ) :
    ((L.call (.reinsertTestcasesHavingNoAnswerSince before)).departures).Sublist L.departures := by
  set gone := L.manager.m_sentButNotEvaluatedTestcaseSet.filter
    (fun it => it.m_timeOfLastSend < before) with hgone
  set L' := L.call (.reinsertTestcasesHavingNoAnswerSince before) with hL'
  have hreinserted : L'.reinserted = L.reinserted ++ gone := by
    simp only [hL', call, TGTestcaseManager.takeOut_eq, hgone]
  have hpending : L'.popped ++ L'.manager.m_pendingTestcaseQueue =
      (L.popped ++ L.manager.m_pendingTestcaseQueue) ++ gone := by
    simp only [hL', call, TGTestcaseManager.reinsert_eq, hgone, List.append_assoc]
  have hnever : ∀ n, L'.neverReinserted n = true →
      L.neverReinserted n = true ∧ n ∉ gone.map mark := by
    intro n hn
    simp only [neverReinserted, hreinserted, List.map_append, List.mem_append, not_or,
      Bool.not_eq_true', decide_eq_false_iff_not] at hn ⊢
    exact hn
  have hback : (gone.map mark).filter L'.neverReinserted = [] := by
    rw [List.filter_eq_nil_iff]
    exact fun n hn hnot => (hnever n hnot).2 hn
  rw [departures, hpending, List.map_append, List.filter_append, hback, List.append_nil]
  exact List.monotone_filter_right _ fun n hn => (hnever n hn).1

theorem Inv.reinsert {L : Ledger} (h : Inv L) (before : ℤ) :
    Inv (L.call (.reinsertTestcasesHavingNoAnswerSince before)) := by
  refine h.move rfl rfl ?_ (departures_reinsert L before)
  simp only [call, TGTestcaseManager.reinsert_eq, accounted, ← Multiset.coe_add]
  conv_rhs => rw [← TGTestcaseManager.coe_filter_add L.manager.m_sentButNotEvaluatedTestcaseSet
    (fun it => it.m_timeOfLastSend < before)]
  ac_rfl

/-- A pop moves the front testcase from the pending queue to the sent set; only
its counter and its time change. -/
theorem accounted_pop {L : Ledger} {front : TestcaseDescriptor ℕ}
    {rest : List (TestcaseDescriptor ℕ)} (now : ℤ)
    (hp : L.manager.m_pendingTestcaseQueue = front :: rest) :
    ∃ others : Multiset (TestcaseDescriptor ℕ), L.accounted = front ::ₘ others ∧
      accounted { L with
        manager := ⟨rest, L.manager.m_sentButNotEvaluatedTestcaseSet ++ [front.send now]⟩
        popped := L.popped ++ [front.send now] } = front.send now ::ₘ others := by
  refine ⟨(rest : Multiset (TestcaseDescriptor ℕ)) +
    L.manager.m_sentButNotEvaluatedTestcaseSet + L.dropped + L.handedOut, ?_, ?_⟩
  · simp only [accounted, hp, ← Multiset.cons_coe, Multiset.cons_add]
  · simp only [accounted, ← Multiset.coe_add, ← Multiset.singleton_add, Multiset.coe_singleton]
    ac_rfl

theorem popsOf_pop (L : Ledger) (m : TGTestcaseManager ℕ) (d : TestcaseDescriptor ℕ) (n : ℕ) :
    popsOf { L with manager := m, popped := L.popped ++ [d] } n =
      L.popsOf n + if d.mark = n then 1 else 0 := by
  simp [popsOf, List.countP_append, List.countP_singleton]

theorem Inv.pop {L : Ledger} (h : Inv L) (now : ℤ) :
    Inv (L.call (.popPendingTCForProcessing now)) := by
  rcases L.manager.pop_cases now with ⟨_, he⟩ | ⟨front, rest, hp, he⟩
  · simpa only [call, he] using h
  obtain ⟨others, hbefore, hafter⟩ := accounted_pop now hp
  simp only [call, he]
  refine ⟨h.marks, ?_, ?_, ?_, ?_⟩
  · rw [hafter, Multiset.map_cons, send_testcase, ← Multiset.map_cons, ← hbefore]
    exact h.balance
  · intro d hd
    rcases List.mem_append.mp hd with hd | hd
    · exact h.popped_lt d hd
    · rw [List.mem_singleton.mp hd, send_mark]
      exact h.mark_lt (hbefore ▸ Multiset.mem_cons_self front others)
  · intro d hd
    rw [hafter, Multiset.mem_cons] at hd
    rcases hd with rfl | hd
    · obtain ⟨p, hpush, hc⟩ := h.counted front (hbefore ▸ Multiset.mem_cons_self front others)
      refine ⟨p, hpush, ?_⟩
      rw [popsOf_pop, send_attempts, send_mark, if_pos rfl, hc, Nat.add_assoc]
    · obtain ⟨p, hpush, hc⟩ := h.counted d (hbefore ▸ Multiset.mem_cons_of_mem hd)
      have hne : front.mark ≠ d.mark := (h.mark_ne hbefore hd).symm
      refine ⟨p, hpush, ?_⟩
      rw [popsOf_pop, send_mark, if_neg hne, Nat.add_zero, hc]
  · have hsame : L.departures = departures { L with
        manager := ⟨rest, L.manager.m_sentButNotEvaluatedTestcaseSet ++ [front.send now]⟩
        popped := L.popped ++ [front.send now] } := by
      simp only [departures, hp, List.map_append, List.map_cons, send_mark,
        List.append_assoc, List.singleton_append]
      rfl
    exact hsame ▸ h.ordered

theorem Inv.call {L : Ledger} (h : Inv L) (c : ManagerCall) : Inv (L.call c) := by
  cases c with
  | pushNewGeneratedTestcase d => exact h.push [d]
  | pushNewGeneratedTestcases ds => exact h.push ds
  | popPendingTCForProcessing now => exact h.pop now
  | removeEvaluatedTestcases ids => exact h.removeEvaluated ids
  | reinsertTestcasesHavingNoAnswerSince before => exact h.reinsert before
  | handMeAllTestcasesWithTooManyRetries max => exact h.handMe max

/-- The books balance after every sequence of calls. -/
theorem inv_of (calls : List ManagerCall) : Inv (of calls) := by
  induction calls using List.reverseRecOn with
  | nil => exact inv_empty
  | append_singleton calls c ih =>
    rw [of, List.foldl_append]
    exact Inv.call ih c

/-! ### Conservation -/

/-- With pairwise different pushed IDs no ID is held twice. -/
theorem Inv.contents_nodup {L : Ledger} (h : Inv L)
    (hids : (L.pushed.map (·.m_id.key)).Nodup) :
    (L.manager.contents.map (·.m_id.key)).Nodup := by
  have hkey : (fun d : TestcaseDescriptor ℕ => d.m_id.key) = (·.m_id.key) ∘ testcase := rfl
  have hall : (L.accounted.map (·.m_id.key)).Nodup := by
    rw [hkey, ← Multiset.map_map, ← h.balance, Multiset.map_map, ← hkey, Multiset.map_coe,
      Multiset.coe_nodup]
    exact hids
  have hle : (L.manager.contents : Multiset (TestcaseDescriptor ℕ)) ≤ L.accounted := by
    rw [TGTestcaseManager.contents, ← Multiset.coe_add, accounted, add_assoc]
    exact Multiset.le_add_right _ _
  rw [← Multiset.coe_nodup, ← Multiset.map_coe]
  exact Multiset.nodup_of_le (Multiset.map_le_map hle) hall

/-- What was popped without ever being reinserted left in push order. -/
theorem Inv.popped_ordered {L : Ledger} (h : Inv L) :
    ((L.popped.map mark).filter L.neverReinserted).Pairwise (· < ·) := by
  refine h.ordered.sublist (List.Sublist.filter _ (List.Sublist.map _ ?_))
  exact List.sublist_append_left _ _

/-- Every pushed testcase is in exactly one place, its counter is the one it was
pushed with plus the number of its pops since, and testcases that were never
reinserted are popped in push order. The first two clauses tie the books to the
plain manager and to the pushes. -/
theorem conservation (calls : List ManagerCall) :
    let L := of calls
    L.manager.erase = calls.foldl TGTestcaseManager.call .empty ∧
    (L.pushed.map TestcaseDescriptor.erase = calls.flatMap ManagerCall.pushes ∧
      L.pushed.map mark = List.range L.pushed.length) ∧
    (L.pushed : Multiset (TestcaseDescriptor ℕ)).map testcase =
      (L.manager.m_pendingTestcaseQueue : Multiset (TestcaseDescriptor ℕ)).map testcase +
        (L.manager.m_sentButNotEvaluatedTestcaseSet : Multiset _).map testcase +
        (L.dropped : Multiset _).map testcase + (L.handedOut : Multiset _).map testcase ∧
    ((L.pushed.map (·.m_id.key)).Nodup → (L.manager.contents.map (·.m_id.key)).Nodup) ∧
    (∀ d ∈ L.accounted, ∃ p, L.pushed[d.mark]? = some p ∧
      d.m_numOfProcessingAttempts = p.m_numOfProcessingAttempts + L.popsOf d.mark) ∧
    ((L.popped.map mark).filter L.neverReinserted).Pairwise (· < ·) ∧
    (∀ (m : TGTestcaseManager Unit) (now : ℤ), m.m_pendingTestcaseQueue = [] →
      m.popPendingTCForProcessing now = .error "No pending testcases" ∧
      m.call (.popPendingTCForProcessing now) = m) := by
  have h := inv_of calls
  refine ⟨erase_of calls, ⟨pushed_of calls, h.marks⟩, ?_, h.contents_nodup, h.counted,
    h.popped_ordered, ?_⟩
  · rw [h.balance, accounted, Multiset.map_add, Multiset.map_add, Multiset.map_add]
  · intro m now hm
    have he : m.popPendingTCForProcessing now = .error "No pending testcases" := by
      rcases m.pop_cases now with ⟨_, he⟩ | ⟨front, rest, hp, _⟩
      · exact he
      · simp [hm] at hp
    exact ⟨he, by simp only [TGTestcaseManager.call, he]⟩

/-- A testcase that is sent once, handed out as having too many retries and then,
because the report failed, pushed again. -/
def repushCalls : List ManagerCall :=
  let testcase := TestcaseDescriptor.new ⟨⟨"host:1", "guid"⟩, 1⟩ ⟨⟨"host:2", "parent"⟩, 0⟩
    "dir/guid-1" false ()
  [.pushNewGeneratedTestcase testcase, .popPendingTCForProcessing 10,
    .handMeAllTestcasesWithTooManyRetries 1, .pushNewGeneratedTestcase (testcase.send 10)]

/-- The pushed-back descriptor is the one that was handed out, and its counter is
not the number of pops since that push. -/
theorem repushed_attempts :
    (of repushCalls).handedOut.map TestcaseDescriptor.erase =
      (of repushCalls).manager.contents.map TestcaseDescriptor.erase ∧
    ¬ ∀ d ∈ (of repushCalls).manager.contents,
      d.m_numOfProcessingAttempts = (of repushCalls).popsOf d.mark := by
  decide

end Ledger

end Fluffi.Generator
