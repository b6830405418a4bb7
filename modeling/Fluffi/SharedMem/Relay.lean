import Fluffi.SharedMem.RoundTrip

/-! The feeder between a runner and a target that has a mailbox of its own. The runner is the
server of the first mailbox and the client's messages pass it; the target is the server of the
second one. The feeder is the client of both: it hands each filename on to the target and the
target's answer back to the runner, whatever the answer is.

Every party takes one statement at a time, in any order. A wait may end without a message at any
time, and any announcement may fail. The filenames are counted where the runner sends them and
where the target opens the file. -/

namespace Fluffi.SharedMem

open SharedMemMessageType SharedMemIPC

/-! ### The parties -/

/-- Where a runner is with its feeder: `initializeFeeder`, then `runSingleTestcase` again and
again. A runner that failed starts another feeder with another mailbox. -/
inductive RunnerAt where
  | start
  | waitForReady
  | idle
  | waitForDone
  | failed
  deriving DecidableEq, Repr

/-- Where the `main` of the SharedMemFeeder is. An uncaught exception has no exit code. -/
inductive FeederAt where
  | waitForPID
  | openTarget (targetPID : SharedMemMessage)
  | giveUp (errorMessage : List UInt8)
  | waitForReady
  | reportReady
  | waitForRunner
  | toTarget (message__FromRunner : SharedMemMessage)
  | waitForTarget
  | toRunner (message__FromTarget : SharedMemMessage)
  | terminate (message__FromRunner : SharedMemMessage)
  | ended (code : Option ℤ)

/-- Where the `main` of the SharedMemStub is. -/
inductive TargetAt where
  | start
  | waitForFeeder
  | testOneInput (targetFile : List UInt8)
  | done
  | ended (code : Option ℤ)

/-- What the feeder finds when it looks for the target's mailbox. -/
inductive TargetSearch where
  | noCommandLine
  | emptyCommandLine
  | notOpened
  | opened
  deriving DecidableEq, Repr

inductive Party where
  | runner
  | feeder
  | target
  deriving DecidableEq, Repr

/-- What the system answers to a statement; each statement uses what concerns it. -/
structure Input where
  message : SharedMemMessage
  written : Bool
  call : WaitCall
  search : TargetSearch

/-- The three parties and the two mailboxes, the filenames the runner sent, those the target
opened and the number of answers `FUZZ_DONE` the runner got. -/
structure Relay where
  runner : RunnerAt
  toFeeder : Link
  feeder : FeederAt
  toTarget : Link
  target : TargetAt
  sent : List (List UInt8)
  tested : List (List UInt8)
  confirmed : ℕ

/-- A message of the type with the data of another. -/
def SharedMemMessage.withType (messageType : SharedMemMessageType) (message : SharedMemMessage) :
    SharedMemMessage :=
  { message with m_messageType := messageType }

/-- The length is passed as an `int`. -/
def SharedMemMessage.ofText (messageType : SharedMemMessageType) (text : List UInt8) :
    SharedMemMessage :=
  if h : text.length < 2 ^ 31 then ⟨messageType, text, h⟩ else .empty messageType

@[simp] theorem SharedMemMessage.ofText_type (messageType : SharedMemMessageType)
    (text : List UInt8) : (ofText messageType text).m_messageType = messageType := by
  simp only [ofText]
  split <;> rfl

def textBytes (text : String) : List UInt8 := text.toList.map fun c => UInt8.ofNat c.toNat

/-- What `fopen` sees of a copied filename. -/
def targetFileOf (data : List UInt8) : List UInt8 := data.takeWhile (· ≠ 0)

namespace Relay

variable (runnerIPC targetIPC : SharedMemIPC)

/-- Both mailboxes are new. -/
def start (toFeeder toTarget : Link) : Relay :=
  ⟨.start, toFeeder, .waitForPID, toTarget, .start, [], [], 0⟩

/-! ### Steps -/

/-- A statement of the runner. -/
def runnerStep (s : Relay) (input : Input) : Relay :=
  match s.runner with
  | .start =>
    let result := runnerIPC.sendMessageToClient
      (input.message.withType SHARED_MEM_MESSAGE_TARGET_PID) s.toFeeder input.written
    { s with
      toFeeder := result.2
      runner := if result.1 then .waitForReady else .failed }
  | .waitForReady =>
    let result := runnerIPC.waitForNewMessageToServer s.toFeeder input.call
    { s with
      toFeeder := result.2
      runner := match result.1 with
        | some (_, responseFromFeeder) =>
          if responseFromFeeder.m_messageType = SHARED_MEM_MESSAGE_READY_TO_FUZZ then .idle
          else .failed
        | none => .failed }
  | .idle =>
    let result := runnerIPC.sendMessageToClient
      (input.message.withType SHARED_MEM_MESSAGE_FUZZ_FILENAME) s.toFeeder input.written
    { s with
      toFeeder := result.2
      runner := if result.1 then .waitForDone else .failed
      sent := s.sent ++ [input.message.m_data] }
  | .waitForDone =>
    let result := runnerIPC.waitForNewMessageToServer s.toFeeder input.call
    match result.1 with
    | some (_, responseFromFeeder) =>
      if responseFromFeeder.m_messageType = SHARED_MEM_MESSAGE_FUZZ_DONE then
        { s with toFeeder := result.2, runner := .idle, confirmed := s.confirmed + 1 }
      else { s with toFeeder := result.2, runner := .failed }
    | none => { s with toFeeder := result.2, runner := .failed }
  | .failed => s

/-- Where the feeder goes with the first message of the runner. -/
def afterPID : Option (Bool × SharedMemMessage) → FeederAt
  | none => .ended none
  | some (_, message__FromRunner) =>
    if message__FromRunner.m_messageType = SHARED_MEM_MESSAGE_TRANSMISSION_TIMEOUT then
      .ended (some (-1))
    else if message__FromRunner.m_messageType = SHARED_MEM_MESSAGE_TARGET_PID then
      .openTarget message__FromRunner
    else .ended (some (-1))

def afterSearch (targetPID : SharedMemMessage) : TargetSearch → FeederAt
  | .noCommandLine => .giveUp (textBytes "Command line of target(PID " ++ targetPID.m_data ++
      textBytes ") could not be read!")
  | .emptyCommandLine => .giveUp (textBytes "Command line of target(PID " ++ targetPID.m_data ++
      textBytes ") seems to be empty!")
  | .notOpened => .ended (some (-1))
  | .opened => .waitForReady

def afterReady : Option (Bool × SharedMemMessage) → FeederAt
  | none => .ended none
  | some (_, message__FromTarget) =>
    if message__FromTarget.m_messageType = SHARED_MEM_MESSAGE_READY_TO_FUZZ then .reportReady
    else .giveUp (textBytes "SharedMemFeeder: Something went wrong! The target did not come up!")

/-- The loop's dispatch on a message of the runner. -/
def dispatch : Option (Bool × SharedMemMessage) → FeederAt
  | none => .ended none
  | some (_, message__FromRunner) =>
    if message__FromRunner.m_messageType = SHARED_MEM_MESSAGE_FUZZ_FILENAME then
      .toTarget message__FromRunner
    else if message__FromRunner.m_messageType = SHARED_MEM_MESSAGE_TERMINATE then
      .terminate message__FromRunner
    else .ended (some (-1))

/-- The answer is handed back whatever it is, also when the wait ended without one. -/
def afterTarget : Option (Bool × SharedMemMessage) → FeederAt
  | none => .ended none
  | some (_, message__FromTarget) => .toRunner message__FromTarget

/-- A statement of the feeder. It does not look at what its own sending returns. -/
def feederStep (s : Relay) (input : Input) : Relay :=
  match s.feeder with
  | .waitForPID =>
    let result := runnerIPC.waitForNewMessageToClient s.toFeeder input.call
    { s with toFeeder := result.2, feeder := afterPID result.1 }
  | .openTarget targetPID => { s with feeder := afterSearch targetPID input.search }
  | .giveUp errorMessage =>
    { s with
      toFeeder := (runnerIPC.sendMessageToServer
        (.ofText SHARED_MEM_MESSAGE_FEEDER_COULD_NOT_INITIALIZE errorMessage) s.toFeeder
        input.written).2
      feeder := .ended (some (-1)) }
  | .waitForReady =>
    let result := targetIPC.waitForNewMessageToClient s.toTarget input.call
    { s with toTarget := result.2, feeder := afterReady result.1 }
  | .reportReady =>
    { s with
      toFeeder := (runnerIPC.sendMessageToServer (.empty SHARED_MEM_MESSAGE_READY_TO_FUZZ)
        s.toFeeder input.written).2
      feeder := .waitForRunner }
  | .waitForRunner =>
    let result := runnerIPC.waitForNewMessageToClient s.toFeeder input.call
    { s with toFeeder := result.2, feeder := dispatch result.1 }
  | .toTarget message__FromRunner =>
    { s with
      toTarget := (targetIPC.sendMessageToServer message__FromRunner s.toTarget input.written).2
      feeder := .waitForTarget }
  | .waitForTarget =>
    let result := targetIPC.waitForNewMessageToClient s.toTarget input.call
    { s with toTarget := result.2, feeder := afterTarget result.1 }
  | .toRunner message__FromTarget =>
    { s with
      toFeeder := (runnerIPC.sendMessageToServer message__FromTarget s.toFeeder input.written).2
      feeder := .waitForRunner }
  | .terminate message__FromRunner =>
    { s with
      toTarget := (targetIPC.sendMessageToServer message__FromRunner s.toTarget input.written).2
      feeder := .ended (some 0) }
  | .ended _ => s

/-- The stub's dispatch on a message of the feeder. -/
def stubDispatch : Option (Bool × SharedMemMessage) → TargetAt
  | none => .ended none
  | some (_, message) =>
    if message.m_messageType = SHARED_MEM_MESSAGE_FUZZ_FILENAME then
      .testOneInput (targetFileOf message.m_data)
    else if message.m_messageType = SHARED_MEM_MESSAGE_TERMINATE then .ended (some 0)
    else .ended (some (-1))

/-- A statement of the target. -/
def targetStep (s : Relay) (input : Input) : Relay :=
  match s.target with
  | .start =>
    { s with
      toTarget := (targetIPC.sendMessageToClient (.empty SHARED_MEM_MESSAGE_READY_TO_FUZZ)
        s.toTarget input.written).2
      target := .waitForFeeder }
  | .waitForFeeder =>
    let result := targetIPC.waitForNewMessageToServer s.toTarget input.call
    { s with toTarget := result.2, target := stubDispatch result.1 }
  | .testOneInput targetFile => { s with target := .done, tested := s.tested ++ [targetFile] }
  | .done =>
    { s with
      toTarget := (targetIPC.sendMessageToClient (.empty SHARED_MEM_MESSAGE_FUZZ_DONE)
        s.toTarget input.written).2
      target := .waitForFeeder }
  | .ended _ => s

def step (s : Relay) (e : Party × Input) : Relay :=
  match e.1 with
  | .runner => s.runnerStep runnerIPC e.2
  | .feeder => s.feederStep runnerIPC targetIPC e.2
  | .target => s.targetStep targetIPC e.2

/-- The system after the statements of all parties, in any order. -/
def run (s : Relay) (events : List (Party × Input)) : Relay :=
  events.foldl (step runnerIPC targetIPC) s

end Relay

/-! ### What a mailbox shows -/

/-- The announced message of each direction, if there is one. -/
abbrev Slots := Direction → Option SharedMemMessage

structure Shows (ipc : SharedMemIPC) (link : Link) (slots : Slots) : Prop where
  quiet : ∀ d, slots d = none → link.fifo d = 0
  announced : ∀ d message, slots d = some message → 0 < link.fifo d
  fits : ∀ d message, slots d = some message → ipc.Fits message
  holds : ∀ d message, slots d = some message → ipc.Holds d message link.mem

/-- The message a wait leaves behind that took none. -/
def Missed (message : SharedMemMessage) : Prop :=
  ∃ messageType, message = .empty messageType ∧
    (messageType = SHARED_MEM_MESSAGE_TRANSMISSION_ERROR ∨
      messageType = SHARED_MEM_MESSAGE_TRANSMISSION_TIMEOUT ∨
      messageType = SHARED_MEM_MESSAGE_WAIT_INTERRUPTED)

theorem Missed.type_ne {message : SharedMemMessage} (h : Missed message) :
    message.m_messageType ≠ SHARED_MEM_MESSAGE_READY_TO_FUZZ ∧
      message.m_messageType ≠ SHARED_MEM_MESSAGE_FUZZ_DONE ∧
      message.m_messageType ≠ SHARED_MEM_MESSAGE_FUZZ_FILENAME ∧
      message.m_messageType ≠ SHARED_MEM_MESSAGE_TARGET_PID ∧
      message.m_messageType ≠ SHARED_MEM_MESSAGE_TERMINATE := by
  obtain ⟨messageType, rfl, rfl | rfl | rfl⟩ := h
  all_goals decide

namespace Shows

variable {ipc : SharedMemIPC} {link : Link} {slots : Slots} {d : Direction}
  {message : SharedMemMessage}

/-- A call in one direction leaves the announced message of the other. -/
theorem other (h : Shows ipc link slots) (call : Call) {slots' : Slots} {d' : Direction}
    (hd : call.direction ≠ d') (hslot : slots' d' = slots d') :
    (slots' d' = none → (ipc.step link call).fifo d' = 0) ∧
      ∀ message, slots' d' = some message → 0 < (ipc.step link call).fifo d' ∧
        ipc.Fits message ∧ ipc.Holds d' message (ipc.step link call).mem := by
  obtain ⟨hbytes, hfifo⟩ := @step_other ipc d' link call hd
  rw [hslot, hfifo]
  refine ⟨h.quiet d', fun message hmessage => ?_⟩
  have hfits := h.fits d' message hmessage
  exact ⟨h.announced d' message hmessage, hfits, (h.holds d' message hmessage).congr hfits hbytes⟩

theorem update (h : Shows ipc link slots) (call : Call) (hd : call.direction = d)
    (slot : Option SharedMemMessage)
    (hquiet : slot = none → (ipc.step link call).fifo d = 0)
    (hmessage : ∀ message, slot = some message → 0 < (ipc.step link call).fifo d ∧
      ipc.Fits message ∧ ipc.Holds d message (ipc.step link call).mem) :
    Shows ipc (ipc.step link call) (Function.update slots d slot) := by
  have hother : ∀ d', d' ≠ d → Function.update slots d slot d' = slots d' :=
    fun d' hne => Function.update_of_ne hne _ _
  have hall : ∀ d', (Function.update slots d slot d' = none → (ipc.step link call).fifo d' = 0) ∧
      ∀ message, Function.update slots d slot d' = some message →
        0 < (ipc.step link call).fifo d' ∧ ipc.Fits message ∧
          ipc.Holds d' message (ipc.step link call).mem := by
    intro d'
    by_cases hne : d' = d
    · subst hne
      rw [Function.update_self]
      exact ⟨hquiet, hmessage⟩
    · exact h.other call (by rw [hd]; exact Ne.symm hne) (hother d' hne)
  exact ⟨fun d' => (hall d').1, fun d' m hm => ((hall d').2 m hm).1,
    fun d' m hm => ((hall d').2 m hm).2.1, fun d' m hm => ((hall d').2 m hm).2.2⟩

/-- A message is sent into an empty slot: it is announced, or nothing is. -/
theorem send (h : Shows ipc link slots) (hempty : slots d = none) (message : SharedMemMessage)
    (written : Bool) :
    ((ipc.sendMessage d message link written).1 = true ∧ ipc.Fits message ∧
        Shows ipc (ipc.sendMessage d message link written).2
          (Function.update slots d (some message))) ∨
      ((ipc.sendMessage d message link written).1 = false ∧
        Shows ipc (ipc.sendMessage d message link written).2 slots) := by
  have hupdate := h.update (d := d) (.send d message written) rfl
  cases hresult : (ipc.sendMessage d message link written).1 with
  | true =>
    have hplaced : (ipc.placeMessage d message link.mem).1 = true ∧
        (ipc.sendMessage d message link written).2.fifo d = link.fifo d + 1 := by
      simp only [sendMessage] at hresult ⊢
      split at hresult
      case isTrue hboth => simp_all
      case isFalse => simp at hresult
    have hfits : ipc.Fits message := by
      have hok := hplaced.1
      simp only [placeMessage] at hok
      split_ifs at hok with hzero hlarge
      · exact Or.inl hzero
      · exact Or.inr (by omega)
    refine .inl ⟨rfl, hfits, hupdate (some message) (fun h => (Option.some_ne_none _ h).elim) ?_⟩
    rintro _ ⟨⟩
    refine ⟨?_, hfits, ?_⟩
    · show 0 < (ipc.sendMessage d message link written).2.fifo d
      omega
    · show ipc.Holds d message (ipc.sendMessage d message link written).2.mem
      rw [sendMessage_mem]
      exact placeMessage_holds hfits
  | false =>
    refine .inr ⟨rfl, ?_⟩
    have hnone := hupdate none (fun _ => ?_) fun _ h => (Option.some_ne_none _ h.symm).elim
    · rwa [← hempty, Function.update_eq_self] at hnone
    · show (ipc.sendMessage d message link written).2.fifo d = 0
      simp only [sendMessage] at hresult ⊢
      split
      case isTrue hboth => simp [hboth] at hresult
      case isFalse => exact h.quiet d hempty

/-- A wait misses, and nothing changes, or it takes the announced message. -/
theorem wait (h : Shows ipc link slots) (d : Direction) (call : WaitCall) :
    (∃ missed, Missed missed ∧ (ipc.waitForNewMessage d link call).1 = some (false, missed) ∧
        (ipc.waitForNewMessage d link call).2 = link) ∨
      ∃ message, slots d = some message ∧
        (ipc.waitForNewMessage d link call).1 = some (true, message) ∧
        Shows ipc (ipc.waitForNewMessage d link call).2 (Function.update slots d none) := by
  by_cases hfailed : WaitCall.failed call.errors = true
  · refine .inl ⟨_, ⟨_, rfl, .inl rfl⟩, ?_, ?_⟩ <;> simp [waitForNewMessage, hfailed]
  by_cases hinterrupted : call.interrupted = true
  · refine .inl ⟨_, ⟨_, rfl, .inr (.inr rfl)⟩, ?_, ?_⟩ <;>
      simp [waitForNewMessage, hfailed, hinterrupted]
  cases hslot : slots d with
  | none =>
    have hquiet := h.quiet d hslot
    refine .inl ⟨_, ⟨_, rfl, .inr (.inl rfl)⟩, ?_, ?_⟩ <;>
      simp [waitForNewMessage, hfailed, hinterrupted, hquiet]
  | some message =>
    have hfifo := h.announced d message hslot
    refine .inr ⟨message, rfl, ?_, ?_⟩
    · rw [waitForNewMessage_holds (h.holds d message hslot) hfifo, if_neg hfailed,
        if_neg hinterrupted]
    · refine h.update (.wait d call) rfl none (fun _ => ?_) fun _ h =>
        (Option.some_ne_none _ h.symm).elim
      show (ipc.waitForNewMessage d link call).2.fifo d = 0
      have hne : link.fifo d ≠ 0 := by omega
      simp [waitForNewMessage, hfailed, hinterrupted, hne]

end Shows

end Fluffi.SharedMem
