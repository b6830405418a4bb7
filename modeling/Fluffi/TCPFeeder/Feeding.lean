import Fluffi.Shared.Strings
import Fluffi.SharedMem.Relay
import Fluffi.Systems.Histories
import Fluffi.TCPFeeder.PacketSequence

/-! The TCPFeeder from its start on: it looks for the port of the target, and sends the bytes of
each file the runner names to it. `errno` belongs to the whole process, so what a call leaves in
it may be looked at many testcases later. -/

namespace Fluffi.TCPFeeder

open Systems SharedMem SharedMemMessageType

/-- Where `main` is. An uncaught exception has no exit code. -/
inductive Place where
  | waitForPID
  | findPort (targetPID : UInt16)
  | waitForPort (targetport : UInt16)
  | waitForFile
  | connecting (packets : List Packet)
  | connected (point : Point)
  | ended (code : Option ℤ)

/-- The process with the messages it has sent to the runner. -/
structure Feeder where
  errno : Errno
  place : Place
  sent : List SharedMemMessage

/-- What is compiled in, and the port of the command line, which is zero if there is none. -/
structure FeederConfig where
  firstByteMarksTestcaseType : Bool
  targetport : UInt16

/-- What the system answers to a statement, and what it leaves in `errno` if it sets it. -/
inductive FeederEvent where
  | message (message : SharedMemMessage) (fuzzBytes : Bytes) (sets : Option Errno)
  | portSearch (targetport : UInt16) (sets : Option Errno)
  | isPortOpen (success : Option Bool) (sets : Option Errno)
  | timeLimit
  | connect (success : Bool) (sets : Option Errno)
  | call (call : SysCall)

/-- `static_cast<uint16_t>(std::stoi(..))`; `none` where it throws. -/
def targetPIDOf (message : SharedMemMessage) : Option UInt16 :=
  (Shared.stoi (message.m_data.map fun b => Char.ofNat b.toNat)).map fun pid =>
    UInt16.ofNat (pid % 2 ^ 16).toNat

/-- `sendBytesToHostAndPort`: the packets, or none for an empty payload. -/
def sendBytes (fuzzBytes : Bytes) : Option (List Packet) :=
  if fuzzBytes.length = 0 then none else some [⟨fuzzBytes, [], .WAIT_FOR_ANY_RESPONSE⟩]

/-- `sendTestcaseToHostAndPort`. What `preprocess` is for is left to the user. -/
def sendTestcase (config : FeederConfig) (fuzzBytes : Bytes) : Option (List Packet) :=
  if config.firstByteMarksTestcaseType then
    match fuzzBytes with
    | [] => none
    | firstbyte :: fuzzBytes => if firstbyte = 0 then sendBytes fuzzBytes else none
  else sendBytes fuzzBytes

namespace Feeder

def sets (s : Feeder) (errno : Option Errno) : Feeder := { s with errno := errno.getD s.errno }

def sends (s : Feeder) (message : SharedMemMessage) (place : Place) : Feeder :=
  { s with place := place, sent := s.sent ++ [message] }

/-- The answer to a testcase. -/
def answers (s : Feeder) (success : Bool) : Feeder :=
  s.sends (if success then .empty SHARED_MEM_MESSAGE_FUZZ_DONE
    else .ofText SHARED_MEM_MESSAGE_ERROR
      (textBytes "Failed sending the fuzz file bytes to the target port")) .waitForFile

def couldNotInitialize (s : Feeder) (errorMessage : String) : Feeder :=
  s.sends (.ofText SHARED_MEM_MESSAGE_FEEDER_COULD_NOT_INITIALIZE (textBytes errorMessage))
    (.ended (some (-1)))

/-- The connection is at a point. -/
def goesTo (s : Feeder) : Point → Feeder
  | .returned success => s.answers success
  | point => { s with place := .connected point }

/-- `getTargetPID` and the choice between the two ways to a port. -/
def startUp (config : FeederConfig) (message : SharedMemMessage) : Place :=
  if message.m_messageType = SHARED_MEM_MESSAGE_TRANSMISSION_TIMEOUT then .ended (some (-1))
  else if message.m_messageType = SHARED_MEM_MESSAGE_TARGET_PID then
    match targetPIDOf message with
    | none => .ended none
    | some targetPID =>
      if config.targetport = 0 then .findPort targetPID else .waitForPort config.targetport
  else .ended (some (-1))

/-- `getNewFuzzFileOrDie` and what the loop does with the file. -/
def takeFile (s : Feeder) (config : FeederConfig) (message : SharedMemMessage)
    (fuzzBytes : Bytes) : Feeder :=
  if message.m_messageType = SHARED_MEM_MESSAGE_FUZZ_FILENAME then
    match sendTestcase config fuzzBytes with
    | none => s.answers true
    | some packets => { s with place := .connecting packets }
  else if message.m_messageType = SHARED_MEM_MESSAGE_TERMINATE then
    { s with place := .ended (some 0) }
  else { s with place := .ended (some (-1)) }

/-- One statement of `main`. -/
def next (config : FeederConfig) (s : Feeder) (event : FeederEvent) : Option Feeder :=
  match s.place, event with
  | .waitForPID, .message message _ errno =>
    some { s.sets errno with place := startUp config message }
  | .findPort targetPID, .portSearch targetport errno =>
    some { s.sets errno with
      place := if targetport = 0 then .findPort targetPID else .waitForPort targetport }
  | .findPort targetPID, .timeLimit =>
    some (s.couldNotInitialize ("Server port of target(PID " ++ toString targetPID ++
      ") could not be identified!"))
  | .waitForPort targetport, .isPortOpen success errno =>
    match success with
    | some true => some ((s.sets errno).sends (.empty SHARED_MEM_MESSAGE_READY_TO_FUZZ)
        .waitForFile)
    | some false => some (s.sets errno)
    | none => some ((s.sets errno).couldNotInitialize
        ("It was not possible to connect to the target on port " ++ toString targetport ++ "!"))
  | .waitForPort targetport, .timeLimit =>
    some (s.couldNotInitialize
      ("It was not possible to connect to the target on port " ++ toString targetport ++ "!"))
  | .waitForFile, .message message fuzzBytes errno =>
    some ((s.sets errno).takeFile config message fuzzBytes)
  | .connecting packets, .connect success errno =>
    if success then some ((s.sets errno).goesTo (sendPackets packets))
    else some ((s.sets errno).answers false)
  | .connected point, .call call =>
    ((⟨s.errno, point⟩ : Connection).next call).map fun c =>
      { s with errno := c.errno }.goesTo c.point
  | _, _ => none

def start (errno : Errno) : Feeder := ⟨errno, .waitForPID, []⟩

end Feeder

/-! ### What is left in `errno` -/

/-- What a call sets `errno` to. -/
def SysCall.leaves : SysCall → Option Errno
  | .send (.error errno) => some errno
  | .recv (.error errno) => some errno
  | .sleep true => some EINTR
  | _ => none

def FeederEvent.leaves : FeederEvent → Option Errno
  | .message _ _ sets | .portSearch _ sets | .isPortOpen _ sets | .connect _ sets => sets
  | .timeLimit => none
  | .call sysCall => sysCall.leaves

/-- Nothing more comes, and no signal wakes the feeder. -/
def FeederEvent.Silent (event : FeederEvent) : Prop :=
  event = .call (.recv (.ok [])) ∨ event = .call (.sleep false)

/-- The feeder waits for the answer to a packet. -/
def Place.AtPacket (place : Place) (packet : Packet) (later : List Packet)
    (fullresponse : Bytes) : Prop :=
  place = .connected (.receiving packet later fullresponse) ∨
    place = .connected (.polling packet later fullresponse)

variable {config : FeederConfig} {s t : Feeder} {event : FeederEvent} {packet : Packet}
  {later : List Packet} {fullresponse : Bytes}

theorem Connection.next_errno {c c' : Connection} {call : SysCall} (h : c.next call = some c') :
    c'.errno = call.leaves.getD c.errno := by
  cases Connection.step_of_next h with
  | polled | paused => rename_i interrupted; cases interrupted <;> rfl
  | _ => rfl

@[simp] theorem Feeder.sets_sent (s : Feeder) (errno : Option Errno) :
    (s.sets errno).sent = s.sent := rfl

theorem Feeder.goesTo_errno (s : Feeder) (point : Point) : (s.goesTo point).errno = s.errno := by
  cases point <;> rfl

theorem Feeder.takeFile_errno (s : Feeder) (message : SharedMemMessage) (fuzzBytes : Bytes) :
    (s.takeFile config message fuzzBytes).errno = s.errno := by
  unfold Feeder.takeFile
  split
  · split <;> rfl
  · split <;> rfl

theorem Feeder.next_errno (h : s.next config event = some t) :
    t.errno = event.leaves.getD s.errno := by
  obtain ⟨errno, place, sent⟩ := s
  cases place <;> cases event <;>
    simp only [Feeder.next, reduceCtorEq, Option.some.injEq] at h
  case connected.call point call =>
    obtain ⟨c, hc, rfl⟩ := Option.map_eq_some_iff.mp h
    rw [Feeder.goesTo_errno]
    exact Connection.next_errno hc
  case connecting.connect packets success errno' =>
    split at h <;> rw [← Option.some.inj h]
    · exact Feeder.goesTo_errno _ _
    · rfl
  case waitForPort.isPortOpen targetport success errno' =>
    split at h <;> rw [← Option.some.inj h] <;> rfl
  case waitForFile.message message fuzzBytes errno' =>
    rw [← h, Feeder.takeFile_errno]
    rfl
  all_goals
    rw [← h]
    rfl

/-- `errno` says that there is nothing new exactly if the last call that has set it left it
so. -/
theorem errno_again_iff {errno : Errno} {tr : List (Feeder × FeederEvent)}
    (hr : Run (Feeder.next config) (.start errno) tr s) :
    s.errno = EAGAIN ↔ LastChange (fun step => step.2.leaves = some EAGAIN)
      (fun step => ∃ other ∈ step.2.leaves, other ≠ EAGAIN) (errno = EAGAIN) tr := by
  refine hr.lastChange (·.errno = EAGAIN) _ _ fun {s e t} hs => ?_
  rw [Feeder.next_errno hs]
  cases e.leaves with
  | none => simp
  | some other => by_cases hother : other = EAGAIN <;> simp [hother]

/-! ### A connection that is closed -/

theorem Place.AtPacket.pending {place : Place} (h : place.AtPacket packet later fullresponse) :
    ∃ point, place = .connected point ∧ point.pending = packet :: later := by
  rcases h with h | h <;> exact ⟨_, h, rfl⟩

theorem Feeder.eq_of_goesTo {point point' : Point}
    (h : (s.goesTo point).place = .connected point') : point' = point := by
  cases point with
  | returned success => cases h
  | _ => exact (Place.connected.inj h).symm

/-- A `recv` that finds the connection closed ends the wait, unless it is taken for one that
finds nothing new. -/
theorem closed_leaves (hplace : s.place = .connected (.receiving packet later fullresponse))
    (hnotices : s.errno ≠ EAGAIN ∨ packet.isAnswered fullresponse = true) :
    ∃ t, s.next config (.call (.recv (.ok []))) = some t ∧
      ¬ t.place.AtPacket packet later fullresponse := by
  have hnext : s.next config (.call (.recv (.ok []))) = some ({ s with errno := s.errno }.goesTo
      (noBytes s.errno true packet later fullresponse)) := by
    simp only [Feeder.next, hplace]
    rfl
  refine ⟨_, hnext, ?_⟩
  have hleaves : noBytes s.errno true packet later fullresponse = sendPackets later ∨
      ∃ success, noBytes s.errno true packet later fullresponse = .returned success := by
    rcases noBytes_cases s.errno true packet later fullresponse with ⟨-, -, heq⟩ |
      ⟨hagain, hanswered, -⟩ | ⟨-, -, -, heq⟩ | ⟨-, -, heq⟩
    · exact .inl heq
    · rw [hagain, hanswered] at hnotices
      simp at hnotices
    · exact .inr ⟨_, heq⟩
    · exact .inr ⟨_, heq⟩
  intro hat
  obtain ⟨point, hpoint, hpending⟩ := hat.pending
  rw [Feeder.eq_of_goesTo hpoint] at hpending
  rcases hleaves with heq | ⟨success, heq⟩ <;> rw [heq] at hpending
  · have hlength := length_pending_sendPackets later
    rw [hpending, List.length_cons] at hlength
    omega
  · cases hpending

/-- While nothing more comes, the feeder polls on. -/
theorem silent_stays {tr : List (Feeder × FeederEvent)} (hr : Run (Feeder.next config) s tr t)
    (hsilent : ∀ step ∈ tr, step.2.Silent)
    (hplace : s.place = .connected (.receiving packet later fullresponse))
    (hagain : s.errno = EAGAIN) (hanswered : packet.isAnswered fullresponse = false) :
    t.place.AtPacket packet later fullresponse ∧ t.sent = s.sent := by
  let stays (u : Feeder) : Prop :=
    u.place.AtPacket packet later fullresponse ∧ u.errno = EAGAIN ∧ u.sent = s.sent
  have hstays : stays t := by
    refine (hr.invariant_mem (G := fun _ e => e.Silent) (I := stays) hsilent
      ⟨.inl hplace, hagain, rfl⟩ ?_).1
    intro u e v ⟨hat, herrno, hsent⟩ hevent hs
    obtain ⟨errno, place, sent⟩ := u
    obtain rfl : errno = EAGAIN := herrno
    rcases hat with rfl | rfl <;> rcases hevent with rfl | rfl <;>
      simp only [Feeder.next, Connection.next, Option.map_some, Option.map_none, reduceCtorEq,
        Option.some.injEq, if_true, Bool.false_eq_true, if_false] at hs <;> rw [← hs]
    · simp only [noBytes, hanswered, true_or, if_true, Bool.false_eq_true, if_false]
      exact ⟨.inr rfl, rfl, hsent⟩
    · exact ⟨.inl rfl, rfl, hsent⟩
  exact ⟨hstays.1, hstays.2.2⟩

/-- That the server closes the connection while its answer is awaited is never noticed, and the
testcase never answered, exactly if the answer is incomplete and the last call of the process
that has set `errno` left in it that there is nothing new. -/
theorem close_unnoticed_iff {errno : Errno} {tr : List (Feeder × FeederEvent)}
    (hr : Run (Feeder.next config) (.start errno) tr s)
    (hplace : s.place = .connected (.receiving packet later fullresponse)) :
    (∀ tr' t, Run (Feeder.next config) s tr' t → (∀ step ∈ tr', step.2.Silent) →
        t.place.AtPacket packet later fullresponse ∧ t.sent = s.sent) ↔
      LastChange (fun step => step.2.leaves = some EAGAIN)
          (fun step => ∃ other ∈ step.2.leaves, other ≠ EAGAIN) (errno = EAGAIN) tr ∧
        packet.isAnswered fullresponse = false := by
  rw [← errno_again_iff hr]
  constructor
  · intro h
    by_contra hnotices
    have hleaves : s.errno ≠ EAGAIN ∨ packet.isAnswered fullresponse = true := by
      rwa [not_and_or, Bool.not_eq_false] at hnotices
    obtain ⟨t, hnext, hgone⟩ := @closed_leaves config s packet later fullresponse hplace hleaves
    refine hgone (h _ t (.single hnext) fun step hstep => ?_).1
    rw [List.mem_singleton.mp hstep]
    exact .inl rfl
  · rintro ⟨hagain, hanswered⟩ tr' t hrest hsilent
    exact silent_stays hrest hsilent hplace hagain hanswered

/-- A server on port 80, and one byte for it. -/
def portConfig : FeederConfig := ⟨false, 80⟩

/-- The target is up, its testcase is sent, and no answer is there yet. -/
def unanswered : List FeederEvent :=
  [.message (.ofText SHARED_MEM_MESSAGE_TARGET_PID [55]) [] none, .isPortOpen (some true) none,
    .message (.ofText SHARED_MEM_MESSAGE_FUZZ_FILENAME [97]) [65] none, .connect true none,
    .call (.send (.ok 1)), .call (.recv (.error EAGAIN)), .call (.sleep false)]

def polledOnce : Option (List (Feeder × FeederEvent) × Feeder) :=
  exec (Feeder.next portConfig) (.start 0) unanswered

/-- If the server closes now, the runner gets no answer any more. -/
theorem close_unnoticed_unanswered :
    ∃ h : polledOnce.isSome = true, ∀ tr t,
      Run (Feeder.next portConfig) (polledOnce.get h).2 tr t →
      (∀ step ∈ tr, step.2.Silent) → t.sent = (polledOnce.get h).2.sent :=
  ⟨rfl, fun tr t hr hsilent =>
    have hstart := run_of_exec (Option.some_get (x := polledOnce) rfl).symm
    ((close_unnoticed_iff hstart rfl).mpr ⟨(errno_again_iff hstart).mp rfl, rfl⟩ tr t hr
      hsilent).2⟩

end Fluffi.TCPFeeder
