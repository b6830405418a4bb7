import Fluffi.Systems.Run
import Fluffi.Shared.Files
import Mathlib.Data.List.TakeWhile
import Mathlib.Logic.Function.Basic

/-! The error messages of the instances on their way into the database. An agent keeps
them in a queue that a GetStatusRequest empties; the monitor of the local manager hands
each answer to a bulk insert that takes or refuses the messages as a whole, and it does not
look at the result. Instances are known by their GUIDs. Delivery and the statements
work; what was logged, handed on and inserted is kept beside the state. -/

namespace Fluffi.LocalManager

open Shared Systems

/-! ### At the instance -/

structure FLUFFILogHandler where
  errorMessages : List Bytes
  deriving DecidableEq, Repr

namespace FLUFFILogHandler

/-- More than 1000 messages that nobody collects push out the oldest one. -/
def addToMessageQueue (h : FLUFFILogHandler) (logLine : Bytes) : FLUFFILogHandler :=
  ⟨(if 1000 < h.errorMessages.length then h.errorMessages.tail else h.errorMessages) ++
    [logLine]⟩

def getAllMessages (h : FLUFFILogHandler) : List Bytes × FLUFFILogHandler :=
  (h.errorMessages, ⟨[]⟩)

end FLUFFILogHandler

/-! ### In the database -/

structure LogMessageRow where
  ID : ℕ
  ServiceDescriptorGUID : Bytes
  TimeOfInsertion : ℕ
  LogMessage : Bytes
  deriving DecidableEq, Repr

/-- `managed_instances_logmessages` with its next ID. -/
structure LogMessagesTable where
  rows : List LogMessageRow
  autoIncrement : ℕ
  deriving DecidableEq, Repr

/-- What `strcpy_s` takes of `s.c_str()`. -/
def cString (s : Bytes) : Bytes := s.takeWhile (· != 0)

/-- `maxGUIDLength` of this bulk insert. -/
def maxLogGUIDLength : ℕ := 50

def maxLogMessageLength : ℕ := 1990

namespace LogMessagesTable

def insertRow (guid : Bytes) (now : ℕ) (t : LogMessagesTable) (message : Bytes) :
    LogMessagesTable :=
  ⟨t.rows ++ [⟨t.autoIncrement, cString guid, now, cString message⟩], t.autoIncrement + 1⟩

/-- The returned bool and the table afterwards. -/
def addNewManagedInstanceLogMessages (t : LogMessagesTable) (now : ℕ)
    (ServiceDescriptorGUID : Bytes) (messages : List Bytes) : Bool × LogMessagesTable :=
  if maxLogGUIDLength ≤ ServiceDescriptorGUID.length then (false, t)
  else if messages.any (maxLogMessageLength ≤ ·.length) then (false, t)
  else if messages.length = 0 then (true, t)
  else (true, messages.foldl (insertRow ServiceDescriptorGUID now) t)

/-- The `num + 1`st newest ID and all below it go. -/
def deleteManagedInstanceLogMessagesIfMoreThan (t : LogMessagesTable) (num : ℕ) :
    LogMessagesTable :=
  match ((t.rows.map (·.ID)).mergeSort (fun a b => decide (b ≤ a)))[num]? with
  | some lllimit => { t with rows := t.rows.filter (lllimit < ·.ID) }
  | none => t

def deleteManagedInstanceLogMessagesOlderThanXSec (t : LogMessagesTable) (now : ℕ)
    (olderThanInSeconds : ℕ) : LogMessagesTable :=
  { t with rows := t.rows.filter fun r => ¬ r.TimeOfInsertion + olderThanInSeconds < now }

end LogMessagesTable

/-! ### The runs -/

structure Monitoring where
  handler : Bytes → FLUFFILogHandler
  /-- The answer the monitor has received and not yet stored. -/
  response : Option (Bytes × List Bytes)
  managed_instances_logmessages : LogMessagesTable
  logged : Bytes → List Bytes
  loggedSinceRequest : Bytes → ℕ
  /-- What `storeLogMessages` was called with. -/
  handed : Bytes → List (List Bytes)
  /-- The rows inserted, each with the instance it came from. -/
  inserted : List (Bytes × LogMessageRow)
  /-- How many of them were there at the last deletion. -/
  deletedAt : ℕ

inductive MonitorEvent where
  /-- `LOG(ERROR)` at an instance. -/
  | log (guid : Bytes) (message : Bytes)
  /-- A GetStatusRequest is answered. -/
  | getStatus (guid : Bytes)
  | storeLogMessages (now : ℕ)
  /-- The start of a round. -/
  | deleteOld (now : ℕ)
  deriving DecidableEq, Repr

namespace Monitoring

def init : Monitoring where
  handler := fun _ => ⟨[]⟩
  response := none
  managed_instances_logmessages := ⟨[], 1⟩
  logged := fun _ => []
  loggedSinceRequest := fun _ => 0
  handed := fun _ => []
  inserted := []
  deletedAt := 0

/-- The monitor waits for one answer and stores it before it goes on. -/
def next (s : Monitoring) : MonitorEvent → Option Monitoring
  | .log guid message => some { s with
      handler := Function.update s.handler guid ((s.handler guid).addToMessageQueue message)
      logged := Function.update s.logged guid (s.logged guid ++ [message])
      loggedSinceRequest :=
        Function.update s.loggedSinceRequest guid (s.loggedSinceRequest guid + 1) }
  | .getStatus guid =>
    if s.response = none then
      let (messages, handler) := (s.handler guid).getAllMessages
      some { s with
        handler := Function.update s.handler guid handler
        response := some (guid, messages)
        loggedSinceRequest := Function.update s.loggedSinceRequest guid 0 }
    else none
  | .storeLogMessages now =>
    match s.response with
    | none => none
    | some (guid, messages) =>
      let table := (s.managed_instances_logmessages.addNewManagedInstanceLogMessages now guid
        messages).2
      some { s with
        response := none
        managed_instances_logmessages := table
        handed := Function.update s.handed guid (s.handed guid ++ [messages])
        inserted := s.inserted ++
          (table.rows.drop s.managed_instances_logmessages.rows.length).map (guid, ·) }
  | .deleteOld now =>
    if s.response = none then
      let table := s.managed_instances_logmessages.deleteManagedInstanceLogMessagesIfMoreThan 1000
      some { s with
        managed_instances_logmessages :=
          table.deleteManagedInstanceLogMessagesOlderThanXSec now (60 * 60 * 24 * 7)
        deletedAt := s.inserted.length }
    else none

/-- At most 1001 messages are logged between two status requests. -/
def Quiet (s : Monitoring) : MonitorEvent → Prop
  | .log guid _ => s.loggedSinceRequest guid < 1001
  | _ => True

instance (s : Monitoring) (e : MonitorEvent) : Decidable (s.Quiet e) := by
  cases e <;> unfold Quiet <;> infer_instance

/-- The answer of `guid` that waits to be stored. -/
def inFlight (s : Monitoring) (guid : Bytes) : List Bytes :=
  match s.response with
  | some (sender, messages) => if sender = guid then messages else []
  | none => []

/-- The GUIDs and messages of the rows that came from `guid`. -/
def storedFor (s : Monitoring) (guid : Bytes) : List (Bytes × Bytes) :=
  (s.inserted.filter (·.1 = guid)).map fun r =>
    (r.2.ServiceDescriptorGUID, r.2.LogMessage)

/-- The messages shorter than the limit of the bulk insert, under the GUID of their
instance, are what was stored: each once and in order. -/
def StoredInOrder (s : Monitoring) (guid : Bytes) : Prop :=
  s.storedFor guid =
    ((s.handed guid).flatten.filter (·.length < maxLogMessageLength)).map (guid, ·)

end Monitoring

/-- An answer none of whose short messages is lost or cut: it has no short message, or the
insert takes all of it and no string ends early. -/
def StorableAnswer (guid : Bytes) (messages : List Bytes) : Prop :=
  (∀ m ∈ messages, maxLogMessageLength ≤ m.length) ∨
    guid.length < maxLogGUIDLength ∧ 0 ∉ guid ∧
      ∀ m ∈ messages, m.length < maxLogMessageLength ∧ 0 ∉ m

/-! ### What the insert takes -/

theorem cString_eq_self_iff {s : Bytes} : cString s = s ↔ 0 ∉ s := by
  rw [cString, List.takeWhile_eq_self_iff]
  constructor
  · intro h h0
    simpa using h 0 h0
  · intro h b hb
    have hne : b ≠ 0 := fun h0 => h (h0 ▸ hb)
    simpa using hne

/-- All messages of an answer or none of them. -/
def taken (guid : Bytes) (messages : List Bytes) : List Bytes :=
  if guid.length < maxLogGUIDLength ∧ ∀ m ∈ messages, m.length < maxLogMessageLength
  then messages else []

def newRows (guid : Bytes) (now : ℕ) : ℕ → List Bytes → List LogMessageRow
  | _, [] => []
  | id, m :: ms => ⟨id, cString guid, now, cString m⟩ :: newRows guid now (id + 1) ms

theorem newRows_stored (guid : Bytes) (now id : ℕ) (messages : List Bytes) :
    (newRows guid now id messages).map (fun r => (r.ServiceDescriptorGUID, r.LogMessage)) =
      messages.map fun m => (cString guid, cString m) := by
  induction messages generalizing id with
  | nil => rfl
  | cons m ms ih => simp [newRows, ih]

theorem newRows_ids (guid : Bytes) (now id : ℕ) (messages : List Bytes) :
    (newRows guid now id messages).map (·.ID) = List.range' id messages.length := by
  induction messages generalizing id with
  | nil => rfl
  | cons m ms ih => simp [newRows, ih, List.range'_succ]

namespace LogMessagesTable

theorem foldl_insertRow (guid : Bytes) (now : ℕ) (messages : List Bytes)
    (t : LogMessagesTable) :
    messages.foldl (insertRow guid now) t =
      ⟨t.rows ++ newRows guid now t.autoIncrement messages,
        t.autoIncrement + messages.length⟩ := by
  induction messages generalizing t with
  | nil => simp [newRows]
  | cons m ms ih =>
    rw [List.foldl_cons, ih]
    simp [insertRow, newRows]
    omega

theorem addNewManagedInstanceLogMessages_table (t : LogMessagesTable) (now : ℕ) (guid : Bytes)
    (messages : List Bytes) :
    (t.addNewManagedInstanceLogMessages now guid messages).2 =
      ⟨t.rows ++ newRows guid now t.autoIncrement (taken guid messages),
        t.autoIncrement + (taken guid messages).length⟩ := by
  have hrefused : taken guid messages = [] → t =
      ⟨t.rows ++ newRows guid now t.autoIncrement (taken guid messages),
        t.autoIncrement + (taken guid messages).length⟩ := by
    intro h
    simp [h, newRows]
  rw [addNewManagedInstanceLogMessages]
  split_ifs with hguid hlong hempty
  · exact hrefused (if_neg fun h => absurd h.1 (by omega))
  · refine hrefused (if_neg fun h => ?_)
    obtain ⟨m, hm, hlen⟩ := List.any_eq_true.mp hlong
    have hlt := h.2 m hm
    rw [decide_eq_true_iff] at hlen
    omega
  · obtain rfl := List.eq_nil_of_length_eq_zero hempty
    exact hrefused (by simp [taken])
  · have htaken : taken guid messages = messages := by
      refine if_pos ⟨by omega, fun m hm => ?_⟩
      by_contra hlen
      exact hlong (List.any_eq_true.mpr ⟨m, hm, by rw [decide_eq_true_iff]; omega⟩)
    rw [htaken, foldl_insertRow]

end LogMessagesTable

/-! ### The books -/

namespace Monitoring

/-- What was inserted, independent of how much is logged. -/
structure Books (s : Monitoring) : Prop where
  stored : ∀ guid, s.storedFor guid = (s.handed guid).flatMap fun messages =>
    (taken guid messages).map fun m => (cString guid, cString m)
  ids : (s.inserted.map (·.2.ID)).Pairwise (· < ·)
  ids_lt : ∀ r ∈ s.inserted, r.2.ID < s.managed_instances_logmessages.autoIncrement
  recent : ∃ kept, s.managed_instances_logmessages.rows =
    kept ++ (s.inserted.drop s.deletedAt).map (·.2)
  deletedAt_le : s.deletedAt ≤ s.inserted.length

theorem books_init : init.Books where
  stored := fun _ => rfl
  ids := List.Pairwise.nil
  ids_lt := by simp [init]
  recent := ⟨[], rfl⟩
  deletedAt_le := le_rfl

theorem deleteOld_autoIncrement (t : LogMessagesTable) (num now seconds : ℕ) :
    LogMessagesTable.autoIncrement
      ((t.deleteManagedInstanceLogMessagesIfMoreThan
        num).deleteManagedInstanceLogMessagesOlderThanXSec now seconds) = t.autoIncrement := by
  unfold LogMessagesTable.deleteManagedInstanceLogMessagesIfMoreThan
  split <;> rfl

/-- What storing an answer does: the messages it takes become rows, under the next IDs. -/
theorem store_cases {s t : Monitoring} {now : ℕ} (h : s.next (.storeLogMessages now) = some t) :
    ∃ guid messages, s.response = some (guid, messages) ∧
      t = { s with
        response := none
        managed_instances_logmessages :=
          ⟨s.managed_instances_logmessages.rows ++
            newRows guid now s.managed_instances_logmessages.autoIncrement (taken guid messages),
            s.managed_instances_logmessages.autoIncrement + (taken guid messages).length⟩
        handed := Function.update s.handed guid (s.handed guid ++ [messages])
        inserted := s.inserted ++
          (newRows guid now s.managed_instances_logmessages.autoIncrement
            (taken guid messages)).map (guid, ·) } := by
  simp only [next] at h
  cases hr : s.response with
  | none => simp [hr] at h
  | some p =>
    simp only [hr, LogMessagesTable.addNewManagedInstanceLogMessages_table,
      List.drop_left, Option.some.injEq] at h
    exact ⟨p.1, p.2, rfl, h.symm⟩

theorem books_store {s t : Monitoring} {now : ℕ} (hs : s.Books)
    (h : s.next (.storeLogMessages now) = some t) : t.Books := by
  obtain ⟨guid, messages, -, rfl⟩ := store_cases h
  have hids := newRows_ids guid now s.managed_instances_logmessages.autoIncrement
    (taken guid messages)
  refine ⟨?_, ?_, ?_, ?_, ?_⟩
  · intro g
    have hnew := newRows_stored guid now s.managed_instances_logmessages.autoIncrement
      (taken guid messages)
    have hold := hs.stored g
    rw [storedFor] at hold
    simp only [storedFor, List.filter_append, List.map_append, hold]
    by_cases hg : guid = g
    · subst hg
      rw [Function.update_self, List.flatMap_append, List.flatMap_singleton, ← hnew,
        List.filter_eq_self.mpr (by simp), List.map_map]
      rfl
    · rw [Function.update_of_ne (Ne.symm hg), List.filter_eq_nil_iff.mpr (by simp [hg])]
      simp
  · rw [List.map_append, List.pairwise_append]
    refine ⟨hs.ids, ?_, ?_⟩
    · rw [List.map_map, show ((fun r : Bytes × LogMessageRow => r.2.ID) ∘ (guid, ·)) = (·.ID)
        from rfl, hids]
      exact List.pairwise_lt_range'
    · intro i hi j hj
      rw [List.map_map, show ((fun r : Bytes × LogMessageRow => r.2.ID) ∘ (guid, ·)) = (·.ID)
        from rfl, hids, List.mem_range'_1] at hj
      obtain ⟨r, hr, rfl⟩ := List.mem_map.mp hi
      have := hs.ids_lt r hr
      omega
  · intro r hr
    rcases List.mem_append.mp hr with hr | hr
    · have := hs.ids_lt r hr
      simp only
      omega
    · obtain ⟨row, hrow, rfl⟩ := List.mem_map.mp hr
      have hid := List.mem_map_of_mem (f := (·.ID)) hrow
      rw [hids, List.mem_range'_1] at hid
      exact hid.2
  · obtain ⟨kept, hkept⟩ := hs.recent
    refine ⟨kept, ?_⟩
    simp only [hkept, List.drop_append_of_le_length hs.deletedAt_le, List.map_append,
      List.map_map, List.append_assoc]
    congr 2
    exact (List.map_id _).symm
  · have := hs.deletedAt_le
    simp only [List.length_append]
    omega

theorem books_next {s t : Monitoring} {e : MonitorEvent} (hs : s.Books)
    (h : s.next e = some t) : t.Books := by
  cases e with
  | log guid message =>
    obtain rfl := Option.some.inj h
    exact ⟨hs.stored, hs.ids, hs.ids_lt, hs.recent, hs.deletedAt_le⟩
  | getStatus guid =>
    simp only [next] at h
    split at h
    · obtain rfl := Option.some.inj h
      exact ⟨hs.stored, hs.ids, hs.ids_lt, hs.recent, hs.deletedAt_le⟩
    · cases h
  | deleteOld now =>
    simp only [next] at h
    split at h
    · obtain rfl := Option.some.inj h
      refine ⟨hs.stored, hs.ids, ?_, ⟨_, by simp; rfl⟩, le_rfl⟩
      simpa only [deleteOld_autoIncrement] using hs.ids_lt
    · cases h
  | storeLogMessages now => exact books_store hs h

/-! ### Nothing is pushed out -/

/-- Between two requests the queue has all messages since the first one. -/
structure Queued (s : Monitoring) : Prop where
  length_eq : ∀ guid, (s.handler guid).errorMessages.length = s.loggedSinceRequest guid
  logged_eq : ∀ guid, s.logged guid =
    (s.handed guid).flatten ++ s.inFlight guid ++ (s.handler guid).errorMessages

theorem queued_init : init.Queued := ⟨fun _ => rfl, fun _ => rfl⟩

theorem queued_next {s t : Monitoring} {e : MonitorEvent} (hs : s.Queued) (hq : s.Quiet e)
    (h : s.next e = some t) : t.Queued := by
  cases e with
  | log guid message =>
    obtain rfl := Option.some.inj h
    have hroom : ¬ 1000 < (s.handler guid).errorMessages.length := by
      have hlt : s.loggedSinceRequest guid < 1001 := hq
      rw [hs.length_eq]
      omega
    constructor <;> intro g <;> by_cases hg : g = guid
    · subst hg
      simp [FLUFFILogHandler.addToMessageQueue, if_neg hroom, ← hs.length_eq]
    · simp [hg, hs.length_eq]
    · subst hg
      have := hs.logged_eq g
      simp [FLUFFILogHandler.addToMessageQueue, hroom, this, inFlight]
    · have := hs.logged_eq g
      simpa [hg, inFlight] using this
  | getStatus guid =>
    simp only [next] at h
    split at h
    · rename_i hnone
      obtain rfl := Option.some.inj h
      constructor <;> intro g <;> by_cases hg : g = guid
      · subst hg
        simp [FLUFFILogHandler.getAllMessages]
      · simp [hg, hs.length_eq]
      · subst hg
        have := hs.logged_eq g
        simpa [FLUFFILogHandler.getAllMessages, inFlight, hnone] using this
      · have := hs.logged_eq g
        simpa [hg, Ne.symm hg, inFlight, hnone] using this
    · cases h
  | deleteOld now =>
    simp only [next] at h
    split at h
    · obtain rfl := Option.some.inj h
      exact ⟨hs.length_eq, hs.logged_eq⟩
    · cases h
  | storeLogMessages now =>
    obtain ⟨guid, messages, hr, rfl⟩ := store_cases h
    refine ⟨hs.length_eq, ?_⟩
    intro g
    have := hs.logged_eq g
    by_cases hg : g = guid
    · subst hg
      simpa [inFlight, hr] using this
    · simpa [hg, Ne.symm hg, inFlight, hr] using this

theorem books_of_run {tr : List (Monitoring × MonitorEvent)} {s : Monitoring}
    (hr : Run next init tr s) : s.Books :=
  hr.invariant books_init fun hs h => books_next hs h

theorem queued_of_run {tr : List (Monitoring × MonitorEvent)} {s : Monitoring}
    (hr : Run next init tr s) (hquiet : ∀ p ∈ tr, p.1.Quiet p.2) : s.Queued :=
  (hr.invariant_mem hquiet queued_init fun hs hq h => queued_next hs hq h).1

end Monitoring

/-! ### Which answers arrive -/

/-- Lists that may be shorter piece by piece are equal in whole only if each piece is. -/
theorem flatMap_eq_flatMap_iff {α β : Type*} {f g : α → List β}
    (hle : ∀ x, (f x).length ≤ (g x).length) (l : List α) :
    l.flatMap f = l.flatMap g ↔ ∀ x ∈ l, f x = g x := by
  have hlen : ∀ l : List α, (l.flatMap f).length ≤ (l.flatMap g).length := by
    intro l
    induction l with
    | nil => simp
    | cons x l ih =>
      have := hle x
      simp only [List.flatMap_cons, List.length_append]
      omega
  induction l with
  | nil => simp
  | cons x l ih =>
    simp only [List.flatMap_cons, List.forall_mem_cons, ← ih]
    constructor
    · intro h
      have hsum := congrArg List.length h
      have hx := hle x
      have hl := hlen l
      simp only [List.length_append] at hsum
      exact List.append_inj h (by omega)
    · rintro ⟨hx, hl⟩
      rw [hx, hl]

/-- What should be stored of an answer. -/
def shortMessages (guid : Bytes) (messages : List Bytes) : List (Bytes × Bytes) :=
  (messages.filter (·.length < maxLogMessageLength)).map (guid, ·)

theorem taken_length_le (guid : Bytes) (messages : List Bytes) :
    (taken guid messages).length ≤ (shortMessages guid messages).length := by
  rw [taken]
  split_ifs with h
  · rw [shortMessages, List.length_map, List.filter_eq_self.mpr (by simpa using h.2)]
  · simp

theorem taken_eq_shortMessages_iff (guid : Bytes) (messages : List Bytes) :
    (taken guid messages).map (fun m => (cString guid, cString m)) =
      shortMessages guid messages ↔ StorableAnswer guid messages := by
  by_cases h : guid.length < maxLogGUIDLength ∧ ∀ m ∈ messages, m.length < maxLogMessageLength
  · rw [taken, if_pos h, shortMessages, List.filter_eq_self.mpr (by simpa using h.2),
      List.map_inj_left]
    simp only [Prod.mk.injEq, cString_eq_self_iff]
    constructor
    · intro hall
      cases messages with
      | nil => exact .inl (by simp)
      | cons m ms =>
        refine .inr ⟨h.1, (hall m List.mem_cons_self).1, fun m' hm' => ?_⟩
        exact ⟨h.2 m' hm', (hall m' hm').2⟩
    · rintro (hlong | ⟨-, hguid, hall⟩) m hm
      · exact absurd (h.2 m hm) (Nat.not_lt.mpr (hlong m hm))
      · exact ⟨hguid, (hall m hm).2⟩
  · rw [taken, if_neg h, shortMessages, List.map_nil, eq_comm, List.map_eq_nil_iff,
      List.filter_eq_nil_iff]
    simp only [decide_eq_true_eq, Nat.not_lt]
    constructor
    · exact .inl
    · rintro (hlong | ⟨hguid, -, hall⟩)
      · exact hlong
      · exact absurd ⟨hguid, fun m hm => (hall m hm).1⟩ h

namespace Monitoring

theorem storedInOrder_iff {s : Monitoring} (hs : s.Books) (guid : Bytes) :
    s.StoredInOrder guid ↔ ∀ messages ∈ s.handed guid, StorableAnswer guid messages := by
  have hshort : ((s.handed guid).flatten.filter (·.length < maxLogMessageLength)).map (guid, ·) =
      (s.handed guid).flatMap (shortMessages guid) := by
    rw [List.filter_flatten, List.map_flatten, List.map_map, List.flatMap_def]
    rfl
  rw [StoredInOrder, hs.stored, hshort, flatMap_eq_flatMap_iff]
  · simp only [taken_eq_shortMessages_iff]
  · intro messages
    rw [List.length_map]
    exact taken_length_le guid messages

/-- In every run with at most 1001 messages between two status requests, no message is lost
on the way to the monitor, every inserted row has its own ID and is in the table until the
next round starts, and exactly the short messages of an instance are stored, in logging
order, if and only if each of its answers has no short message or can be inserted whole. -/
theorem log_messages_stored_iff {tr : List (Monitoring × MonitorEvent)} {s : Monitoring}
    (hr : Run next init tr s) (hquiet : ∀ p ∈ tr, p.1.Quiet p.2) (guid : Bytes) :
    s.logged guid = (s.handed guid).flatten ++ s.inFlight guid ++
        (s.handler guid).errorMessages ∧
      (s.inserted.map (·.2.ID)).Pairwise (· < ·) ∧
      (∃ kept, s.managed_instances_logmessages.rows =
        kept ++ (s.inserted.drop s.deletedAt).map (·.2)) ∧
      (s.StoredInOrder guid ↔ ∀ messages ∈ s.handed guid, StorableAnswer guid messages) := by
  have hbooks := books_of_run hr
  exact ⟨(queued_of_run hr hquiet).logged_eq guid, hbooks.ids, hbooks.recent,
    storedInOrder_iff hbooks guid⟩

/-- The run of a list of events. -/
def after (es : List MonitorEvent) : List (Monitoring × MonitorEvent) × Monitoring :=
  (exec next init es).getD ([], init)

theorem run_after {es : List MonitorEvent} (h : (exec next init es).isSome = true) :
    Run next init (after es).1 (after es).2 := by
  obtain ⟨r, hr⟩ := Option.isSome_iff_exists.mp h
  rw [after, hr, Option.getD_some]
  exact run_of_exec hr

def twoShort : List MonitorEvent :=
  [.log [49] [97], .log [50] [99], .log [49] [98], .getStatus [49], .storeLogMessages 0]

theorem log_messages_stored_twoShort :
    (after twoShort).2.StoredInOrder [49] ∧
      (after twoShort).2.storedFor [49] = [([49], [97]), ([49], [98])] := by
  have hquiet : ((after twoShort).1.all fun p => decide (p.1.Quiet p.2)) = true := by
    decide +kernel
  have hstored := log_messages_stored_iff (@run_after twoShort (by decide +kernel))
    (fun p hp => of_decide_eq_true (List.all_eq_true.mp hquiet p hp)) [49]
  have hhanded : (after twoShort).2.handed [49] = [[[97], [98]]] := by decide +kernel
  rw [hhanded] at hstored
  refine ⟨hstored.2.2.2.mpr ?_, by decide +kernel⟩
  simp [StorableAnswer, maxLogGUIDLength, maxLogMessageLength]

def oneLong : List MonitorEvent :=
  [.log [49] [97], .log [49] (List.replicate 1990 98), .getStatus [49], .storeLogMessages 0]

/-- A message of one byte is collected together with one of 1990 bytes and is not stored. -/
theorem short_message_lost :
    Run next init (after oneLong).1 (after oneLong).2 ∧
    ((after oneLong).1.all fun p => decide (p.1.Quiet p.2)) = true ∧
    (after oneLong).2.handed [49] = [[[97], List.replicate 1990 98]] ∧
    (after oneLong).2.storedFor [49] = [] ∧ ¬ (after oneLong).2.StoredInOrder [49] := by
  refine ⟨run_after (by decide +kernel), by decide +kernel, by decide +kernel,
    by decide +kernel, ?_⟩
  unfold StoredInOrder
  decide +kernel

end Monitoring

end Fluffi.LocalManager
