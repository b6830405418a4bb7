import Fluffi.SharedMem.Relay
import Mathlib.Data.List.Induction

/-! The runner, the feeder and the target stay in step. At any time at most one filename or
answer is on its way that lets the runner go on: the invariant says where it can be, separately
for the mailbox above the feeder and the one below. The steps of the target and of the feeder
keep it. -/

namespace Fluffi.SharedMem

open SharedMemMessageType SharedMemIPC

/-! ### The invariant -/

/-- The runner waits for an answer, or no longer. -/
def RunnerAt.Asked (runner : RunnerAt) : Prop := runner = .waitForDone ∨ runner = .failed

def RunnerAt.Started (runner : RunnerAt) : Prop := runner = .waitForReady ∨ runner = .failed

theorem RunnerAt.not_start_not_idle {runner : RunnerAt} (h : runner.Asked ∨ runner.Started) :
    runner ≠ .start ∧ runner ≠ .idle := by
  rcases h with (rfl | rfl) | (rfl | rfl) <;> decide

/-- The target neither has a file nor owes an answer. -/
def TargetAt.Resting : TargetAt → Prop
  | .waitForFeeder => True
  | .ended (some _) => True
  | _ => False

namespace Relay

/-- The filenames as the target would open them. -/
def names (s : Relay) : List (List UInt8) := s.sent.map targetFileOf

/-- The target opened all files. -/
def Level (s : Relay) : Prop := s.names = s.tested

/-- The target opened all files but the last, which the message names. -/
def Pending (s : Relay) (message : SharedMemMessage) : Prop :=
  message.m_messageType = SHARED_MEM_MESSAGE_FUZZ_FILENAME ∧
    s.names = s.tested ++ [targetFileOf message.m_data]

/-- Nothing is on its way between the feeder and the target. -/
structure Calm (slots : Slots) (target : TargetAt) : Prop where
  toClient : slots .toClient = none
  toServer : slots .toServer = none
  resting : target.Resting

/-- What can be on its way between the feeder and the target, and how far the files are then. -/
inductive Lower (names tested : List (List UInt8)) (target : TargetAt) (slots : Slots) : Prop
  | start (htarget : target = .start) (hclient : slots .toClient = none)
      (hserver : slots .toServer = none) (hsent : names = []) (htested : tested = [])
  | ready (hresting : target.Resting)
      (hclient : slots .toClient = some (.empty SHARED_MEM_MESSAGE_READY_TO_FUZZ))
      (hserver : slots .toServer = none) (hsent : names = []) (htested : tested = [])
  | asked (message : SharedMemMessage) (hresting : target.Resting)
      (hclient : slots .toClient = none) (hserver : slots .toServer = some message)
      (htype : message.m_messageType = SHARED_MEM_MESSAGE_FUZZ_FILENAME)
      (hnames : names = tested ++ [targetFileOf message.m_data])
  | testing (file : List UInt8) (htarget : target = .testOneInput file)
      (hclient : slots .toClient = none) (hserver : slots .toServer = none)
      (hnames : names = tested ++ [file])
  | done (htarget : target = .done) (hclient : slots .toClient = none)
      (hserver : slots .toServer = none) (hlevel : names = tested)
  | answered (hresting : target.Resting)
      (hclient : slots .toClient = some (.empty SHARED_MEM_MESSAGE_FUZZ_DONE))
      (hserver : slots .toServer = none) (hlevel : names = tested)
  | calm (hcalm : Calm slots target)
      (hnames : names = tested ∨ ∃ file, names = tested ++ [file])

/-- What can be on its way between the runner and the feeder, by what the feeder does. -/
inductive Upper (s : Relay) (up down : Slots) : Prop
  | beforePID (hfeeder : s.feeder = .waitForPID) (hserver : up .toServer = none)
      (hsent : s.sent = [])
      (hrunner : s.runner = .start ∧ up .toClient = none ∨ s.runner.Started ∧
        ∀ message, up .toClient = some message →
          message.m_messageType = SHARED_MEM_MESSAGE_TARGET_PID)
  | starting (hfeeder : (∃ targetPID, s.feeder = .openTarget targetPID) ∨
        (∃ errorMessage, s.feeder = .giveUp errorMessage) ∨ s.feeder = .waitForReady)
      (hclient : up .toClient = none) (hserver : up .toServer = none) (hsent : s.sent = [])
      (hrunner : s.runner.Started)
  | reporting (hfeeder : s.feeder = .reportReady) (hclient : up .toClient = none)
      (hserver : up .toServer = none) (hlevel : s.Level) (hrunner : s.runner.Started)
      (hcalm : Calm down s.target)
  | asked (message : SharedMemMessage) (hfeeder : s.feeder = .waitForRunner)
      (hclient : up .toClient = some message) (hserver : up .toServer = none)
      (hrunner : s.runner.Asked) (hpending : s.Pending message) (hcalm : Calm down s.target)
  | relaying (message : SharedMemMessage) (hfeeder : s.feeder = .toTarget message)
      (hclient : up .toClient = none) (hserver : up .toServer = none)
      (hrunner : s.runner.Asked) (hpending : s.Pending message) (hcalm : Calm down s.target)
  | waiting (hfeeder : s.feeder = .waitForTarget) (hclient : up .toClient = none)
      (hserver : up .toServer = none) (hrunner : s.runner.Asked) (hsent : s.names ≠ [])
  | answering (message : SharedMemMessage) (hfeeder : s.feeder = .toRunner message)
      (hclient : up .toClient = none) (hserver : up .toServer = none) (hrunner : s.runner.Asked)
      (hanswer : message.m_messageType = SHARED_MEM_MESSAGE_READY_TO_FUZZ ∨
        message.m_messageType = SHARED_MEM_MESSAGE_FUZZ_DONE → s.Level ∧ Calm down s.target)
  | answered (message : SharedMemMessage)
      (hfeeder : s.feeder = .waitForRunner ∨ ∃ code, s.feeder = .ended (some code))
      (hclient : up .toClient = none) (hserver : up .toServer = some message)
      (hrunner : s.runner.Asked ∨ s.runner.Started)
      (hanswer : message.m_messageType = SHARED_MEM_MESSAGE_READY_TO_FUZZ ∨
        message.m_messageType = SHARED_MEM_MESSAGE_FUZZ_DONE → s.Level ∧ Calm down s.target)
  | quiet (hfeeder : s.feeder = .waitForRunner ∧ s.runner ≠ .start ∨
        ∃ code, s.feeder = .ended (some code))
      (hclient : up .toClient = none) (hserver : up .toServer = none)
      (hidle : s.runner = .idle → s.Level ∧ Calm down s.target)
  | unread (code : ℤ) (hfeeder : s.feeder = .ended (some code)) (hserver : up .toServer = none)
      (hrunner : s.runner.Asked ∨ s.runner.Started)

/-- How far the runner is with counting. -/
def Counted (s : Relay) : Prop :=
  match s.runner with
  | .start => s.sent.length = 0 ∧ s.confirmed = 0
  | .waitForReady => s.sent.length = 0 ∧ s.confirmed = 0
  | .idle => s.sent.length = s.confirmed
  | .waitForDone => s.sent.length = s.confirmed + 1
  | .failed => s.sent.length = 0 ∧ s.confirmed = 0 ∨ s.sent.length = s.confirmed + 1

structure InStep (runnerIPC targetIPC : SharedMemIPC) (s : Relay) (up down : Slots) : Prop where
  shown : Shows runnerIPC s.toFeeder up
  shownBelow : Shows targetIPC s.toTarget down
  upper : s.Upper up down
  lower : Lower s.names s.tested s.target down
  counted : s.Counted

section Steps

variable {runnerIPC targetIPC : SharedMemIPC} {s : Relay} {up down : Slots}

@[simp] theorem update_toClient_toServer (slots : Slots) (slot : Option SharedMemMessage) :
    Function.update slots .toClient slot .toServer = slots .toServer :=
  Function.update_of_ne (by decide) _ _

@[simp] theorem update_toServer_toClient (slots : Slots) (slot : Option SharedMemMessage) :
    Function.update slots .toServer slot .toClient = slots .toClient :=
  Function.update_of_ne (by decide) _ _

/-! ### The target -/

/-- A resting target waits on, or it takes the message of its slot. -/
theorem targetStep_resting (hshown : Shows targetIPC s.toTarget down)
    (hresting : s.target.Resting) (input : Input) :
    (∃ target : TargetAt, target.Resting ∧
        s.targetStep targetIPC input = { s with target := target }) ∨
      ∃ message link, down .toServer = some message ∧
        Shows targetIPC link (Function.update down .toServer none) ∧
        s.targetStep targetIPC input =
          { s with toTarget := link, target := stubDispatch (some (true, message)) } := by
  cases htarget : s.target with
  | start | testOneInput | done =>
    rw [htarget] at hresting
    exact hresting.elim
  | ended code =>
    refine .inl ⟨s.target, hresting, ?_⟩
    simp only [Relay.targetStep, htarget]
    rw [← htarget]
  | waitForFeeder =>
    simp only [Relay.targetStep, htarget, waitForNewMessageToServer]
    rcases hshown.wait .toServer input.call with
      ⟨missed, hmissed, hresult, hlink⟩ | ⟨message, hslot, hresult, hafter⟩
    · obtain ⟨-, -, hfile, -, hterminate⟩ := hmissed.type_ne
      rw [hresult, hlink]
      refine .inl ⟨_, ?_, rfl⟩
      rw [stubDispatch, if_neg hfile, if_neg hterminate]
      trivial
    · rw [hresult]
      exact .inr ⟨message, _, hslot, hafter, rfl⟩

/-- A step of the target keeps what is on its way below, and where nothing is, it opens no
file. -/
theorem Lower.targetStep (hshown : Shows targetIPC s.toTarget down)
    (h : Lower s.names s.tested s.target down) (input : Input) :
    ∃ down', Shows targetIPC (s.targetStep targetIPC input).toTarget down' ∧
      Lower s.names (s.targetStep targetIPC input).tested (s.targetStep targetIPC input).target
        down' ∧
      (Calm down s.target → Calm down' (s.targetStep targetIPC input).target ∧
        (s.targetStep targetIPC input).tested = s.tested) := by
  -- Where the slot to a resting target is empty, only the wait goes on.
  have hstill : s.target.Resting → down .toServer = none → ∃ target : TargetAt,
      target.Resting ∧ s.targetStep targetIPC input = { s with target := target } := by
    intro hresting hserver
    rcases targetStep_resting hshown hresting input with hwaits | ⟨_, _, hslot, -⟩
    · exact hwaits
    · rw [hserver] at hslot
      cases hslot
  cases h with
  | start htarget hclient hserver hsent htested =>
    simp only [Relay.targetStep, htarget]
    rcases hshown.send hclient (.empty SHARED_MEM_MESSAGE_READY_TO_FUZZ) input.written with
      ⟨-, -, hafter⟩ | ⟨-, hafter⟩
    · exact ⟨_, hafter, .ready trivial (Function.update_self ..) (by simpa using hserver) hsent
        htested, fun hcalm => False.elim hcalm.resting⟩
    · exact ⟨_, hafter, .calm ⟨hclient, hserver, trivial⟩ (.inl (hsent.trans htested.symm)),
        fun hcalm => False.elim hcalm.resting⟩
  | ready hresting hclient hserver hsent htested =>
    obtain ⟨target, htarget, hstep⟩ := hstill hresting hserver
    rw [hstep]
    exact ⟨down, hshown, .ready htarget hclient hserver hsent htested,
      fun hcalm => ⟨⟨hcalm.toClient, hserver, htarget⟩, rfl⟩⟩
  | asked message hresting hclient hserver htype hnames =>
    rcases targetStep_resting hshown hresting input with
      ⟨target, htarget, hstep⟩ | ⟨taken, link, hslot, hafter, hstep⟩
    · rw [hstep]
      exact ⟨down, hshown, .asked message htarget hclient hserver htype hnames,
        fun hcalm => ⟨⟨hcalm.toClient, hcalm.toServer, htarget⟩, rfl⟩⟩
    · obtain rfl : message = taken := Option.some.inj (hserver.symm.trans hslot)
      rw [hstep]
      refine ⟨_, hafter, .testing (targetFileOf message.m_data) ?_ (by simpa using hclient)
        (Function.update_self ..) hnames, fun hcalm => ?_⟩
      · simp only [stubDispatch, if_pos htype]
      · rw [hcalm.toServer] at hserver
        cases hserver
  | testing file htarget hclient hserver hnames =>
    simp only [Relay.targetStep, htarget]
    exact ⟨down, hshown, .done rfl hclient hserver hnames,
      fun hcalm => False.elim hcalm.resting⟩
  | done htarget hclient hserver hlevel =>
    simp only [Relay.targetStep, htarget]
    rcases hshown.send hclient (.empty SHARED_MEM_MESSAGE_FUZZ_DONE) input.written with
      ⟨-, -, hafter⟩ | ⟨-, hafter⟩
    · exact ⟨_, hafter, .answered trivial (Function.update_self ..) (by simpa using hserver)
        hlevel, fun hcalm => False.elim hcalm.resting⟩
    · exact ⟨_, hafter, .calm ⟨hclient, hserver, trivial⟩ (.inl hlevel),
        fun hcalm => False.elim hcalm.resting⟩
  | answered hresting hclient hserver hlevel =>
    obtain ⟨target, htarget, hstep⟩ := hstill hresting hserver
    rw [hstep]
    exact ⟨down, hshown, .answered htarget hclient hserver hlevel,
      fun hcalm => ⟨⟨hcalm.toClient, hserver, htarget⟩, rfl⟩⟩
  | calm hcalm hnames =>
    obtain ⟨target, htarget, hstep⟩ := hstill hcalm.resting hcalm.toServer
    have hafter : Calm down target := ⟨hcalm.toClient, hcalm.toServer, htarget⟩
    rw [hstep]
    exact ⟨down, hshown, .calm hafter hnames, fun _ => ⟨hafter, rfl⟩⟩

/-- What the target's steps leave alone. -/
theorem targetStep_frame (targetIPC : SharedMemIPC) (s : Relay) (input : Input) :
    (s.targetStep targetIPC input).runner = s.runner ∧
      (s.targetStep targetIPC input).toFeeder = s.toFeeder ∧
      (s.targetStep targetIPC input).feeder = s.feeder ∧
      (s.targetStep targetIPC input).sent = s.sent ∧
      (s.targetStep targetIPC input).confirmed = s.confirmed := by
  simp only [Relay.targetStep]
  split <;> exact ⟨rfl, rfl, rfl, rfl, rfl⟩

theorem InStep.targetStep (h : s.InStep runnerIPC targetIPC up down) (input : Input) :
    ∃ down', (s.targetStep targetIPC input).InStep runnerIPC targetIPC up down' := by
  obtain ⟨hrunner, htoFeeder, hfeeder, hsent, hconfirmed⟩ :=
    targetStep_frame targetIPC s input
  obtain ⟨down', hbelow, hlower, hcalm⟩ := h.lower.targetStep h.shownBelow input
  generalize s.targetStep targetIPC input = t at *
  have hlevel : s.Level ∧ Calm down s.target → t.Level ∧ Calm down' t.target := by
    rintro ⟨hlevel, hc⟩
    refine ⟨?_, (hcalm hc).1⟩
    rw [Level, names, hsent, (hcalm hc).2]
    exact hlevel
  have hpending : ∀ message, s.Pending message → Calm down s.target → t.Pending message := by
    intro message hm hc
    rw [Pending, names, hsent, (hcalm hc).2]
    exact hm
  refine ⟨down', htoFeeder ▸ h.shown, hbelow, ?_, ?_, ?_⟩
  · have hupper := h.upper
    cases hupper with
    | beforePID hf hserver hs hr =>
      exact .beforePID (hfeeder ▸ hf) hserver (hsent ▸ hs) (hrunner ▸ hr)
    | starting hf hclient hserver hs hr =>
      exact .starting (hfeeder ▸ hf) hclient hserver (hsent ▸ hs) (hrunner ▸ hr)
    | reporting hf hclient hserver hl hr hc =>
      obtain ⟨hl', hc'⟩ := hlevel ⟨hl, hc⟩
      exact .reporting (hfeeder ▸ hf) hclient hserver hl' (hrunner ▸ hr) hc'
    | asked message hf hclient hserver hr hm hc =>
      exact .asked message (hfeeder ▸ hf) hclient hserver (hrunner ▸ hr) (hpending message hm hc)
        (hcalm hc).1
    | relaying message hf hclient hserver hr hm hc =>
      exact .relaying message (hfeeder ▸ hf) hclient hserver (hrunner ▸ hr)
        (hpending message hm hc) (hcalm hc).1
    | waiting hf hclient hserver hr hn =>
      refine .waiting (hfeeder ▸ hf) hclient hserver (hrunner ▸ hr) ?_
      rwa [names, hsent]
    | answering message hf hclient hserver hr ha =>
      exact .answering message (hfeeder ▸ hf) hclient hserver (hrunner ▸ hr)
        fun hm => hlevel (ha hm)
    | answered message hf hclient hserver hr ha =>
      exact .answered message (hfeeder ▸ hf) hclient hserver (hrunner ▸ hr)
        fun hm => hlevel (ha hm)
    | quiet hf hclient hserver hi =>
      exact .quiet (hrunner ▸ hfeeder ▸ hf) hclient hserver
        fun hr => hlevel (hi (hrunner ▸ hr))
    | unread code hf hserver hr => exact .unread code (hfeeder ▸ hf) hserver (hrunner ▸ hr)
  · rw [names, hsent]
    exact hlower
  · have hcounted := h.counted
    rw [Counted, hrunner, hsent, hconfirmed]
    exact hcounted

/-! ### The feeder -/

/-- A message for the feeder says that the target opened all files, and taking it leaves
nothing below. -/
theorem Lower.taken (h : Lower s.names s.tested s.target down) {message : SharedMemMessage}
    (hslot : down .toClient = some message) :
    s.Level ∧ Calm (Function.update down .toClient none) s.target ∧
      (message = .empty SHARED_MEM_MESSAGE_READY_TO_FUZZ ∧ s.names = [] ∨
        message = .empty SHARED_MEM_MESSAGE_FUZZ_DONE) := by
  cases h with
  | ready hresting hclient hserver hsent htested =>
    obtain rfl := Option.some.inj (hclient.symm.trans hslot)
    exact ⟨hsent.trans htested.symm, ⟨Function.update_self .., by simpa using hserver, hresting⟩,
      .inl ⟨rfl, hsent⟩⟩
  | answered hresting hclient hserver hlevel =>
    obtain rfl := Option.some.inj (hclient.symm.trans hslot)
    exact ⟨hlevel, ⟨Function.update_self .., by simpa using hserver, hresting⟩, .inr rfl⟩
  | start _ hclient | asked _ _ hclient | testing _ _ hclient | done _ hclient =>
    rw [hclient] at hslot
    cases hslot
  | calm hcalm =>
    rw [hcalm.toClient] at hslot
    cases hslot

/-- What the feeder hands to the runner is announced, or lost. -/
theorem Upper.reply (hshown : Shows runnerIPC s.toFeeder up) (hclient : up .toClient = none)
    (hserver : up .toServer = none) (message : SharedMemMessage) (written : Bool)
    (feeder : FeederAt) (hfeeder : feeder = .waitForRunner ∨ ∃ code, feeder = .ended (some code))
    (hrunner : s.runner.Asked ∨ s.runner.Started)
    (hanswer : message.m_messageType = SHARED_MEM_MESSAGE_READY_TO_FUZZ ∨
      message.m_messageType = SHARED_MEM_MESSAGE_FUZZ_DONE → s.Level ∧ Calm down s.target) :
    ∃ up', Shows runnerIPC (runnerIPC.sendMessageToServer message s.toFeeder written).2 up' ∧
      Upper { s with
        toFeeder := (runnerIPC.sendMessageToServer message s.toFeeder written).2
        feeder := feeder } up' down := by
  obtain ⟨hstart, hidle⟩ := RunnerAt.not_start_not_idle hrunner
  rcases hshown.send hserver message written with ⟨-, -, hafter⟩ | ⟨-, hafter⟩
  · exact ⟨_, hafter, .answered message hfeeder (by simpa using hclient)
      (Function.update_self ..) hrunner hanswer⟩
  · exact ⟨_, hafter, .quiet (hfeeder.imp_left fun h => ⟨h, hstart⟩) hclient hserver
      fun h => absurd h hidle⟩

/-- A wait of the feeder for the runner, where nothing is announced, ends the feeder. -/
theorem dispatch_missed {missed : SharedMemMessage} (h : Missed missed) :
    dispatch (some (false, missed)) = .ended (some (-1)) ∧
      afterPID (some (false, missed)) = .ended (some (-1)) := by
  obtain ⟨-, -, hfile, hpid, hterminate⟩ := h.type_ne
  rw [dispatch, if_neg hfile, if_neg hterminate, afterPID, if_neg hpid, ite_self]
  exact ⟨rfl, rfl⟩

theorem InStep.feederStep (h : s.InStep runnerIPC targetIPC up down) (input : Input) :
    ∃ up' down', (s.feederStep runnerIPC targetIPC input).InStep runnerIPC targetIPC up' down' := by
  obtain ⟨hshown, hbelow, hupper, hlower, hcounted⟩ := h
  have hended : ∀ code, s.feeder = .ended (some code) →
      s.feederStep runnerIPC targetIPC input = s := by
    intro code hfeeder
    simp only [Relay.feederStep, hfeeder]
  have hwaited : s.feeder = .waitForRunner → up .toClient = none →
      s.feederStep runnerIPC targetIPC input = { s with feeder := .ended (some (-1)) } := by
    intro hfeeder hclient
    simp only [Relay.feederStep, hfeeder, waitForNewMessageToClient]
    rcases hshown.wait .toClient input.call with
      ⟨missed, hmissed, hresult, hlink⟩ | ⟨message, hslot, -⟩
    · rw [hresult, hlink, (dispatch_missed hmissed).1]
    · rw [hclient] at hslot
      cases hslot
  cases hupper with
  | beforePID hfeeder hserver hsent hrunner =>
    simp only [Relay.feederStep, hfeeder, waitForNewMessageToClient]
    rcases hshown.wait .toClient input.call with
      ⟨missed, hmissed, hresult, hlink⟩ | ⟨message, hslot, hresult, hafter⟩
    · rw [hresult, hlink, (dispatch_missed hmissed).2]
      refine ⟨up, down, hshown, hbelow, ?_, hlower, hcounted⟩
      rcases hrunner with ⟨hstart, hclient⟩ | ⟨hstarted, -⟩
      · exact .quiet (.inr ⟨_, rfl⟩) hclient hserver fun hidle => by simp [hstart] at hidle
      · exact .unread _ rfl hserver (.inr hstarted)
    · rw [hresult]
      rcases hrunner with ⟨-, hclient⟩ | ⟨hstarted, hpid⟩
      · rw [hclient] at hslot
        cases hslot
      · have htype := hpid message hslot
        refine ⟨_, down, hafter, hbelow, .starting (.inl ⟨message, ?_⟩)
          (Function.update_self ..) (by simpa using hserver) hsent hstarted, hlower, hcounted⟩
        simp only [afterPID, htype]
        rfl
  | starting hfeeder hclient hserver hsent hrunner =>
    rcases hfeeder with ⟨targetPID, hfeeder⟩ | ⟨errorMessage, hfeeder⟩ | hfeeder
    · simp only [Relay.feederStep, hfeeder]
      refine ⟨up, down, hshown, hbelow, ?_, hlower, hcounted⟩
      cases input.search with
      | noCommandLine | emptyCommandLine =>
        exact .starting (.inr (.inl ⟨_, rfl⟩)) hclient hserver hsent hrunner
      | notOpened =>
        exact .quiet (.inr ⟨_, rfl⟩) hclient hserver fun hidle =>
          absurd hidle (RunnerAt.not_start_not_idle (.inr hrunner)).2
      | opened => exact .starting (.inr (.inr rfl)) hclient hserver hsent hrunner
    · simp only [Relay.feederStep, hfeeder]
      obtain ⟨up', hafter, hupper⟩ := Upper.reply hshown hclient hserver
        (.ofText SHARED_MEM_MESSAGE_FEEDER_COULD_NOT_INITIALIZE errorMessage) input.written
        (.ended (some (-1))) (.inr ⟨_, rfl⟩) (.inr hrunner)
        fun htype => absurd htype (by rw [SharedMemMessage.ofText_type]; decide)
      exact ⟨up', down, hafter, hbelow, hupper, hlower, hcounted⟩
    · simp only [Relay.feederStep, hfeeder, waitForNewMessageToClient]
      rcases hbelow.wait .toClient input.call with
        ⟨missed, hmissed, hresult, hlink⟩ | ⟨message, hslot, hresult, hafter⟩
      · rw [hresult, hlink, afterReady, if_neg hmissed.type_ne.1]
        exact ⟨up, down, hshown, hbelow, .starting (.inr (.inl ⟨_, rfl⟩)) hclient hserver hsent
          hrunner, hlower, hcounted⟩
      · obtain ⟨hlevel, hcalm, hmessage⟩ := hlower.taken hslot
        rw [hresult]
        refine ⟨up, _, hshown, hafter, ?_, .calm hcalm (.inl hlevel), hcounted⟩
        rcases hmessage with ⟨rfl, -⟩ | rfl
        · exact .reporting rfl hclient hserver hlevel hrunner hcalm
        · exact .starting (.inr (.inl ⟨_, rfl⟩)) hclient hserver hsent hrunner
  | reporting hfeeder hclient hserver hlevel hrunner hcalm =>
    simp only [Relay.feederStep, hfeeder]
    obtain ⟨up', hafter, hupper⟩ := Upper.reply hshown hclient hserver
      (.empty SHARED_MEM_MESSAGE_READY_TO_FUZZ) input.written .waitForRunner (.inl rfl)
      (.inr hrunner) fun _ => ⟨hlevel, hcalm⟩
    exact ⟨up', down, hafter, hbelow, hupper, hlower, hcounted⟩
  | asked message hfeeder hclient hserver hrunner hpending hcalm =>
    simp only [Relay.feederStep, hfeeder, waitForNewMessageToClient]
    rcases hshown.wait .toClient input.call with
      ⟨missed, hmissed, hresult, hlink⟩ | ⟨taken, hslot, hresult, hafter⟩
    · rw [hresult, hlink, (dispatch_missed hmissed).1]
      exact ⟨up, down, hshown, hbelow, .unread _ rfl hserver (.inl hrunner), hlower, hcounted⟩
    · obtain rfl : message = taken := Option.some.inj (hclient.symm.trans hslot)
      rw [hresult]
      refine ⟨_, down, hafter, hbelow, .relaying message ?_ (Function.update_self ..)
        (by simpa using hserver) hrunner hpending hcalm, hlower, hcounted⟩
      simp only [dispatch, if_pos hpending.1]
  | relaying message hfeeder hclient hserver hrunner hpending hcalm =>
    simp only [Relay.feederStep, hfeeder]
    have hne : s.names ≠ [] := by
      rw [hpending.2]
      exact List.append_ne_nil_of_right_ne_nil _ (List.cons_ne_nil _ _)
    rcases hbelow.send hcalm.toServer message input.written with ⟨-, -, hafter⟩ | ⟨-, hafter⟩
    · exact ⟨up, _, hshown, hafter, .waiting rfl hclient hserver hrunner hne,
        .asked message hcalm.resting (by simpa using hcalm.toClient) (Function.update_self ..)
          hpending.1 hpending.2, hcounted⟩
    · exact ⟨up, down, hshown, hafter, .waiting rfl hclient hserver hrunner hne,
        .calm hcalm (.inr ⟨_, hpending.2⟩), hcounted⟩
  | waiting hfeeder hclient hserver hrunner hsent =>
    simp only [Relay.feederStep, hfeeder, waitForNewMessageToClient]
    rcases hbelow.wait .toClient input.call with
      ⟨missed, hmissed, hresult, hlink⟩ | ⟨message, hslot, hresult, hafter⟩
    · rw [hresult, hlink]
      obtain ⟨hready, hdone, -⟩ := hmissed.type_ne
      exact ⟨up, down, hshown, hbelow, .answering missed rfl hclient hserver hrunner
        fun htype => htype.elim (absurd · hready) (absurd · hdone), hlower, hcounted⟩
    · obtain ⟨hlevel, hcalm, hmessage⟩ := hlower.taken hslot
      rw [hresult]
      exact ⟨up, _, hshown, hafter, .answering message rfl hclient hserver hrunner
        fun _ => ⟨hlevel, hcalm⟩, .calm hcalm (.inl hlevel), hcounted⟩
  | answering message hfeeder hclient hserver hrunner hanswer =>
    simp only [Relay.feederStep, hfeeder]
    obtain ⟨up', hafter, hupper⟩ := Upper.reply hshown hclient hserver message
      input.written .waitForRunner (.inl rfl) (.inl hrunner) hanswer
    exact ⟨up', down, hafter, hbelow, hupper, hlower, hcounted⟩
  | answered message hfeeder hclient hserver hrunner hanswer =>
    rcases hfeeder with hfeeder | ⟨code, hfeeder⟩
    · rw [hwaited hfeeder hclient]
      exact ⟨up, down, hshown, hbelow, .answered message (.inr ⟨_, rfl⟩) hclient hserver hrunner
        hanswer, hlower, hcounted⟩
    · rw [hended code hfeeder]
      exact ⟨up, down, hshown, hbelow, .answered message (.inr ⟨code, hfeeder⟩) hclient hserver
        hrunner hanswer, hlower, hcounted⟩
  | quiet hfeeder hclient hserver hidle =>
    rcases hfeeder with ⟨hfeeder, -⟩ | ⟨code, hfeeder⟩
    · rw [hwaited hfeeder hclient]
      exact ⟨up, down, hshown, hbelow, .quiet (.inr ⟨_, rfl⟩) hclient hserver hidle, hlower,
        hcounted⟩
    · rw [hended code hfeeder]
      exact ⟨up, down, hshown, hbelow, .quiet (.inr ⟨code, hfeeder⟩) hclient hserver hidle, hlower,
        hcounted⟩
  | unread code hfeeder hserver hrunner =>
    rw [hended code hfeeder]
    exact ⟨up, down, hshown, hbelow, .unread code hfeeder hserver hrunner, hlower, hcounted⟩

end Steps

end Relay

end Fluffi.SharedMem
