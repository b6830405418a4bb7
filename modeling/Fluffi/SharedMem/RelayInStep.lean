import Fluffi.SharedMem.RelaySteps

/-! The runs of the runner, the feeder and the target. Behind a wait that ended without a message
the answer still on its way below is never handed up, because the feeder takes one answer for
each filename and the runner sends no other filename. -/

namespace Fluffi.SharedMem

open SharedMemMessageType SharedMemIPC

namespace Relay

section Steps

variable {runnerIPC targetIPC : SharedMemIPC} {s : Relay} {up down : Slots}

/-! ### The runner -/

/-- A runner that gives up stays with what is on its way. -/
theorem Upper.fail (h : s.Upper up down) (hrunner : s.runner = .waitForReady ∨
    s.runner = .waitForDone) : Upper { s with runner := .failed } up down := by
  cases h with
  | beforePID hfeeder hserver hsent hr =>
    refine .beforePID hfeeder hserver hsent (.inr ⟨.inr rfl, ?_⟩)
    rcases hr with ⟨hstart, -⟩ | ⟨-, hpid⟩
    · rcases hrunner with h | h <;> rw [hstart] at h <;> cases h
    · exact hpid
  | starting hfeeder hclient hserver hsent =>
    exact .starting hfeeder hclient hserver hsent (.inr rfl)
  | reporting hfeeder hclient hserver hlevel _ hcalm =>
    exact .reporting hfeeder hclient hserver hlevel (.inr rfl) hcalm
  | asked message hfeeder hclient hserver _ hpending hcalm =>
    exact .asked message hfeeder hclient hserver (.inr rfl) hpending hcalm
  | relaying message hfeeder hclient hserver _ hpending hcalm =>
    exact .relaying message hfeeder hclient hserver (.inr rfl) hpending hcalm
  | waiting hfeeder hclient hserver _ hsent =>
    exact .waiting hfeeder hclient hserver (.inr rfl) hsent
  | answering message hfeeder hclient hserver _ hanswer =>
    exact .answering message hfeeder hclient hserver (.inr rfl) hanswer
  | answered message hfeeder hclient hserver _ hanswer =>
    exact .answered message hfeeder hclient hserver (.inl (.inr rfl)) hanswer
  | quiet hfeeder hclient hserver =>
    exact .quiet (hfeeder.imp_left fun h => ⟨h.1, by simp⟩) hclient hserver (by simp)
  | unread code hfeeder hserver => exact .unread code hfeeder hserver (.inl (.inr rfl))

/-- The message a runner takes. If it is an answer that lets the runner go on, the target
opened all files and nothing is on its way. -/
theorem Upper.taken (h : s.Upper up down) {message : SharedMemMessage}
    (hslot : up .toServer = some message) (runner : RunnerAt) (hstart : runner ≠ .start)
    (hidle : runner = .idle → message.m_messageType = SHARED_MEM_MESSAGE_READY_TO_FUZZ ∨
      message.m_messageType = SHARED_MEM_MESSAGE_FUZZ_DONE) (toFeeder : Link) (confirmed : ℕ) :
    Upper { s with toFeeder := toFeeder, runner := runner, confirmed := confirmed }
      (Function.update up .toServer none) down := by
  cases h with
  | beforePID _ hserver | starting _ _ hserver | reporting _ _ hserver | asked _ _ _ hserver
    | relaying _ _ _ hserver | waiting _ _ hserver | answering _ _ _ hserver | quiet _ _ hserver
    | unread _ _ hserver =>
    rw [hserver] at hslot
    cases hslot
  | answered taken hfeeder hclient hserver hrunner hanswer =>
    obtain rfl := Option.some.inj (hserver.symm.trans hslot)
    exact .quiet (hfeeder.imp_left fun h => ⟨h, hstart⟩) (by simpa using hclient)
      (Function.update_self ..) fun h => hanswer (hidle h)

theorem Upper.of_start (h : s.Upper up down) (hrunner : s.runner = .start) :
    (s.feeder = .waitForPID ∧ s.sent = [] ∨ ∃ code, s.feeder = .ended (some code)) ∧
      up .toClient = none ∧ up .toServer = none := by
  cases h with
  | beforePID hfeeder hserver hsent hr =>
    rcases hr with ⟨-, hclient⟩ | ⟨hstarted, -⟩
    · exact ⟨.inl ⟨hfeeder, hsent⟩, hclient, hserver⟩
    · exact absurd hrunner (RunnerAt.not_start_not_idle (.inr hstarted)).1
  | quiet hfeeder hclient hserver =>
    exact ⟨.inr (hfeeder.resolve_left fun h => h.2 hrunner), hclient, hserver⟩
  | starting _ _ _ _ hr | reporting _ _ _ _ hr =>
    exact absurd hrunner (RunnerAt.not_start_not_idle (.inr hr)).1
  | asked _ _ _ _ hr | relaying _ _ _ _ hr | waiting _ _ _ hr | answering _ _ _ _ hr =>
    exact absurd hrunner (RunnerAt.not_start_not_idle (.inl hr)).1
  | answered _ _ _ _ hr | unread _ _ _ hr => exact absurd hrunner (RunnerAt.not_start_not_idle hr).1

/-- While the runner is idle, nothing is on its way and the target opened all files. -/
theorem Upper.of_idle (h : s.Upper up down) (hrunner : s.runner = .idle) :
    (s.feeder = .waitForRunner ∨ ∃ code, s.feeder = .ended (some code)) ∧ up .toClient = none ∧
      up .toServer = none ∧ s.Level ∧ Calm down s.target := by
  cases h with
  | beforePID hfeeder hserver hsent hr =>
    rcases hr with ⟨hstart, -⟩ | ⟨hstarted, -⟩
    · simp [hrunner] at hstart
    · exact absurd hrunner (RunnerAt.not_start_not_idle (.inr hstarted)).2
  | quiet hfeeder hclient hserver hidle =>
    exact ⟨hfeeder.imp_left And.left, hclient, hserver, hidle hrunner⟩
  | starting _ _ _ _ hr | reporting _ _ _ _ hr =>
    exact absurd hrunner (RunnerAt.not_start_not_idle (.inr hr)).2
  | asked _ _ _ _ hr | relaying _ _ _ _ hr | waiting _ _ _ hr | answering _ _ _ _ hr =>
    exact absurd hrunner (RunnerAt.not_start_not_idle (.inl hr)).2
  | answered _ _ _ _ hr | unread _ _ _ hr => exact absurd hrunner (RunnerAt.not_start_not_idle hr).2

theorem InStep.runnerStep (h : s.InStep runnerIPC targetIPC up down) (input : Input) :
    ∃ up', (s.runnerStep runnerIPC input).InStep runnerIPC targetIPC up' down := by
  obtain ⟨hshown, hbelow, hupper, hlower, hcounted⟩ := h
  cases hrunner : s.runner with
  | start =>
    simp only [Counted, hrunner] at hcounted
    simp only [Relay.runnerStep, hrunner]
    obtain ⟨hfeeder, hclient, hserver⟩ := hupper.of_start hrunner
    rcases hshown.send hclient (input.message.withType SHARED_MEM_MESSAGE_TARGET_PID)
      input.written with ⟨hresult, -, hafter⟩ | ⟨hresult, hafter⟩
    · refine ⟨_, hafter, hbelow, ?_, hlower, ?_⟩
      · rcases hfeeder with ⟨hfeeder, hsent⟩ | ⟨code, hfeeder⟩
        · refine .beforePID hfeeder (by simpa using hserver) hsent (.inr ⟨.inl ?_, ?_⟩)
          · exact if_pos hresult
          · rw [Function.update_self]
            rintro _ ⟨⟩
            rfl
        · refine .unread code hfeeder (by simpa using hserver) (.inr (.inl ?_))
          exact if_pos hresult
      · simp only [SharedMemIPC.sendMessageToClient, Counted, hresult, if_true]
        exact hcounted
    · refine ⟨_, hafter, hbelow, ?_, hlower, ?_⟩
      · rcases hfeeder with ⟨hfeeder, hsent⟩ | ⟨code, hfeeder⟩
        · refine .beforePID hfeeder hserver hsent (.inr ⟨.inr ?_, ?_⟩)
          · simp only [SharedMemIPC.sendMessageToClient, hresult]
            rfl
          · rw [hclient]
            simp
        · refine .quiet (.inr ⟨code, hfeeder⟩) hclient hserver ?_
          simp only [SharedMemIPC.sendMessageToClient, hresult]
          simp
      · simp only [SharedMemIPC.sendMessageToClient, Counted, hresult]
        exact .inl hcounted
  | waitForReady =>
    simp only [Counted, hrunner] at hcounted
    simp only [Relay.runnerStep, hrunner, waitForNewMessageToServer]
    rcases hshown.wait .toServer input.call with
      ⟨missed, hmissed, hresult, hlink⟩ | ⟨message, hslot, hresult, hafter⟩
    · rw [hresult, hlink]
      simp only [if_neg hmissed.type_ne.1]
      exact ⟨up, hshown, hbelow, hupper.fail (.inl hrunner), hlower, .inl hcounted⟩
    · rw [hresult]
      by_cases hready : message.m_messageType = SHARED_MEM_MESSAGE_READY_TO_FUZZ
      · simp only [if_pos hready]
        refine ⟨_, hafter, hbelow,
          hupper.taken hslot .idle (by simp) (fun _ => .inl hready) _ _, hlower, ?_⟩
        simp only [Counted]
        omega
      · simp only [if_neg hready]
        have htaken := hupper.taken hslot .failed (by simp) (by simp)
        exact ⟨_, hafter, hbelow, htaken _ _, hlower, .inl hcounted⟩
  | idle =>
    simp only [Counted, hrunner] at hcounted
    simp only [Relay.runnerStep, hrunner]
    obtain ⟨hfeeder, hclient, hserver, hlevel, hcalm⟩ := hupper.of_idle hrunner
    have hnames : (s.sent ++ [input.message.m_data]).map targetFileOf =
        s.tested ++ [targetFileOf input.message.m_data] := by
      rw [List.map_append, ← hlevel]
      rfl
    have hlength : (s.sent ++ [input.message.m_data]).length = s.confirmed + 1 := by
      rw [List.length_append, hcounted, List.length_singleton]
    rcases hshown.send hclient (input.message.withType SHARED_MEM_MESSAGE_FUZZ_FILENAME)
      input.written with ⟨hresult, -, hafter⟩ | ⟨hresult, hafter⟩
    · simp only [SharedMemIPC.sendMessageToClient, hresult, if_true]
      refine ⟨_, hafter, hbelow, ?_, .calm hcalm (.inr ⟨_, hnames⟩), hlength⟩
      rcases hfeeder with hfeeder | ⟨code, hfeeder⟩
      · exact .asked _ hfeeder (Function.update_self ..) (by simpa using hserver) (.inl rfl)
          ⟨rfl, hnames⟩ hcalm
      · exact .unread code hfeeder (by simpa using hserver) (.inl (.inl rfl))
    · simp only [SharedMemIPC.sendMessageToClient, hresult, Bool.false_eq_true, if_false]
      exact ⟨up, hafter, hbelow,
        .quiet (hfeeder.imp_left fun h => ⟨h, by simp⟩) hclient hserver (by simp),
        .calm hcalm (.inr ⟨_, hnames⟩), .inr hlength⟩
  | waitForDone =>
    simp only [Counted, hrunner] at hcounted
    simp only [Relay.runnerStep, hrunner, waitForNewMessageToServer]
    rcases hshown.wait .toServer input.call with
      ⟨missed, hmissed, hresult, hlink⟩ | ⟨message, hslot, hresult, hafter⟩
    · rw [hresult, hlink]
      simp only [if_neg hmissed.type_ne.2.1]
      exact ⟨up, hshown, hbelow, hupper.fail (.inr hrunner), hlower, .inr hcounted⟩
    · rw [hresult]
      by_cases hdone : message.m_messageType = SHARED_MEM_MESSAGE_FUZZ_DONE
      · simp only [if_pos hdone]
        have htaken := hupper.taken hslot .idle (by simp) fun _ => .inr hdone
        exact ⟨_, hafter, hbelow, htaken _ _, hlower, hcounted⟩
      · simp only [if_neg hdone]
        have htaken := hupper.taken hslot .failed (by simp) (by simp)
        exact ⟨_, hafter, hbelow, htaken _ _, hlower, .inr hcounted⟩
  | failed =>
    simp only [Relay.runnerStep, hrunner]
    exact ⟨up, hshown, hbelow, hupper, hlower, hcounted⟩

/-! ### Runs -/

theorem start_inStep {toFeeder toTarget : Link} (hfeeder : ∀ d, toFeeder.fifo d = 0)
    (htarget : ∀ d, toTarget.fifo d = 0) :
    (start toFeeder toTarget).InStep runnerIPC targetIPC (fun _ => none) fun _ => none where
  shown := ⟨fun d _ => hfeeder d, by simp, by simp, by simp⟩
  shownBelow := ⟨fun d _ => htarget d, by simp, by simp, by simp⟩
  upper := .beforePID rfl rfl rfl (.inl ⟨rfl, rfl⟩)
  lower := .start rfl rfl rfl rfl rfl
  counted := ⟨rfl, rfl⟩

theorem run_inStep (events : List (Party × Input))
    (h : ∃ up down, s.InStep runnerIPC targetIPC up down) :
    ∃ up down, (s.run runnerIPC targetIPC events).InStep runnerIPC targetIPC up down := by
  induction events generalizing s with
  | nil => exact h
  | cons e events ih =>
    obtain ⟨up, down, h⟩ := h
    apply ih (s := s.step runnerIPC targetIPC e)
    obtain ⟨party, input⟩ := e
    cases party with
    | runner =>
      obtain ⟨up', h'⟩ := h.runnerStep input
      exact ⟨up', down, h'⟩
    | feeder => exact h.feederStep input
    | target =>
      obtain ⟨down', h'⟩ := h.targetStep input
      exact ⟨up, down', h'⟩

/-- The target opened all files, or all but the last. -/
theorem Lower.names_eq {names tested : List (List UInt8)} {target : TargetAt}
    (h : Lower names tested target down) :
    names = tested ∨ ∃ file, names = tested ++ [file] := by
  cases h with
  | start _ _ _ hsent htested | ready _ _ _ hsent htested => exact .inl (hsent.trans htested.symm)
  | asked message _ _ _ _ hnames => exact .inr ⟨_, hnames⟩
  | testing file _ _ _ hnames => exact .inr ⟨_, hnames⟩
  | done _ _ _ hlevel | answered _ _ _ hlevel => exact .inl hlevel
  | calm _ hnames => exact hnames

theorem InStep.no_exception (h : s.InStep runnerIPC targetIPC up down) :
    s.feeder ≠ .ended none ∧ s.target ≠ .ended none := by
  constructor
  · intro hnone
    cases h.upper with
    | starting hfeeder => rcases hfeeder with ⟨_, h⟩ | ⟨_, h⟩ | h <;> simp [hnone] at h
    | beforePID h | reporting h | asked _ h | relaying _ h | waiting h | answering _ h
      | unread _ h => simp [hnone] at h
    | answered _ hfeeder | quiet hfeeder => simp [hnone] at hfeeder
  · intro hnone
    have hresting : ¬ s.target.Resting := by simp [hnone, TargetAt.Resting]
    cases h.lower with
    | start h | testing _ h | done h => simp [hnone] at h
    | ready h | asked _ h | answered h => exact hresting h
    | calm h => exact hresting h.resting

end Steps

/-! ### Undisturbed runs -/

/-- Nothing is announced in either direction. -/
def Silent (ipc : SharedMemIPC) (link : Link) : Prop := Shows ipc link fun _ => none

section Undisturbed

variable {runnerIPC targetIPC : SharedMemIPC}

/-- Nothing fails, and every wait comes after its message. -/
def undisturbed (message : SharedMemMessage) : Input := ⟨message, true, ⟨[], none⟩, .opened⟩

/-- A fitting message is sent into a silent mailbox and taken. -/
theorem Silent.exchange {ipc : SharedMemIPC} {link : Link} (h : Silent ipc link) (d : Direction)
    (message : SharedMemMessage) (hfits : ipc.Fits message) :
    ∃ sent taken, ipc.sendMessage d message link true = (true, sent) ∧
      ipc.waitForNewMessage d sent ⟨[], none⟩ = (some (true, message), taken) ∧
      Silent ipc taken := by
  have hsent := (mailbox_round_trip ipc d message hfits link true [] (by simp) ⟨[], none⟩).1
  obtain ⟨-, -, hafter⟩ | ⟨hfailed, -⟩ := Shows.send h (d := d) rfl message true
  · obtain ⟨missed, -, hresult, -⟩ | ⟨taken, hslot, hresult, hsilent⟩ :=
      hafter.wait d ⟨[], none⟩
    · have htaken := @waitForNewMessage_holds ipc d _ message ⟨[], none⟩
        (hafter.holds d message (Function.update_self ..))
        (hafter.announced d message (Function.update_self ..))
      rw [hresult] at htaken
      simp [WaitCall.failed, WaitCall.interrupted] at htaken
    · rw [Function.update_self] at hslot
      obtain rfl := Option.some.inj hslot
      refine ⟨_, _, Prod.ext hsent rfl, Prod.ext hresult rfl, ?_⟩
      rwa [Function.update_idem, Function.update_eq_self] at hsilent
  · rw [hsent] at hfailed
    cases hfailed

/-- All parties are ready and the target opened the files, each confirmed. -/
structure Served (runnerIPC targetIPC : SharedMemIPC) (files : List SharedMemMessage)
    (s : Relay) : Prop where
  runner : s.runner = .idle
  feeder : s.feeder = .waitForRunner
  target : s.target = .waitForFeeder
  above : Silent runnerIPC s.toFeeder
  below : Silent targetIPC s.toTarget
  tested : s.tested = files.map fun file => targetFileOf file.m_data
  confirmed : s.confirmed = files.length

/-- The statements that bring up the feeder and the target. -/
def bringUp (targetPID : SharedMemMessage) : List (Party × Input) :=
  [.target, .runner, .feeder, .feeder, .feeder, .feeder, .runner].map (·, undisturbed targetPID)

/-- The statements that pass one filename down and its answer up. -/
def serve (file : SharedMemMessage) : List (Party × Input) :=
  [.runner, .feeder, .feeder, .target, .target, .target, .feeder, .feeder, .runner].map
    (·, undisturbed file)

theorem fits_empty (ipc : SharedMemIPC) (messageType : SharedMemMessageType) :
    ipc.Fits (.empty messageType) := .inl rfl

theorem bringUp_served {toFeeder toTarget : Link} (hfeeder : ∀ d, toFeeder.fifo d = 0)
    (htarget : ∀ d, toTarget.fifo d = 0) {targetPID : SharedMemMessage}
    (hfits : runnerIPC.Fits targetPID) :
    Served runnerIPC targetIPC []
      ((start toFeeder toTarget).run runnerIPC targetIPC (bringUp targetPID)) := by
  have habove : Silent runnerIPC toFeeder := ⟨fun d _ => hfeeder d, by simp, by simp, by simp⟩
  have hbelow : Silent targetIPC toTarget := ⟨fun d _ => htarget d, by simp, by simp, by simp⟩
  obtain ⟨b₁, b₂, hb₁, hb₂, hbelow⟩ := hbelow.exchange .toClient _
    (fits_empty targetIPC SHARED_MEM_MESSAGE_READY_TO_FUZZ)
  obtain ⟨a₁, a₂, ha₁, ha₂, habove⟩ := habove.exchange .toClient
    (targetPID.withType SHARED_MEM_MESSAGE_TARGET_PID) hfits
  obtain ⟨a₃, a₄, ha₃, ha₄, habove⟩ := habove.exchange .toServer _
    (fits_empty runnerIPC SHARED_MEM_MESSAGE_READY_TO_FUZZ)
  have hpid : afterPID (some (true, targetPID.withType SHARED_MEM_MESSAGE_TARGET_PID)) =
      .openTarget (targetPID.withType SHARED_MEM_MESSAGE_TARGET_PID) := rfl
  have hready : afterReady (some (true, .empty SHARED_MEM_MESSAGE_READY_TO_FUZZ)) =
      .reportReady := rfl
  simp only [bringUp, run, List.map_cons, List.map_nil, List.foldl_cons, List.foldl_nil, step,
    start, undisturbed, targetStep, runnerStep, feederStep, sendMessageToClient,
    sendMessageToServer, waitForNewMessageToClient, waitForNewMessageToServer, if_true, afterSearch,
    hpid, hready, hb₁, hb₂, ha₁, ha₂, ha₃, ha₄]
  exact ⟨rfl, rfl, rfl, habove, hbelow, rfl, rfl⟩

theorem Served.serve {files : List SharedMemMessage} {s : Relay}
    (h : Served runnerIPC targetIPC files s) {file : SharedMemMessage}
    (hrunner : runnerIPC.Fits file) (htarget : targetIPC.Fits file) :
    Served runnerIPC targetIPC (files ++ [file]) (s.run runnerIPC targetIPC (serve file)) := by
  obtain ⟨runner, toFeeder, feeder, toTarget, target, sent, tested, confirmed⟩ := s
  obtain ⟨rfl, rfl, rfl, habove, hbelow, rfl, rfl⟩ := h
  obtain ⟨a₁, a₂, ha₁, ha₂, habove⟩ := habove.exchange .toClient
    (file.withType SHARED_MEM_MESSAGE_FUZZ_FILENAME) hrunner
  obtain ⟨b₁, b₂, hb₁, hb₂, hbelow⟩ := hbelow.exchange .toServer
    (file.withType SHARED_MEM_MESSAGE_FUZZ_FILENAME) htarget
  obtain ⟨b₃, b₄, hb₃, hb₄, hbelow⟩ := hbelow.exchange .toClient _
    (fits_empty targetIPC SHARED_MEM_MESSAGE_FUZZ_DONE)
  obtain ⟨a₃, a₄, ha₃, ha₄, habove⟩ := habove.exchange .toServer _
    (fits_empty runnerIPC SHARED_MEM_MESSAGE_FUZZ_DONE)
  have hfile : dispatch (some (true, file.withType SHARED_MEM_MESSAGE_FUZZ_FILENAME)) =
      .toTarget (file.withType SHARED_MEM_MESSAGE_FUZZ_FILENAME) := rfl
  have hstub : stubDispatch (some (true, file.withType SHARED_MEM_MESSAGE_FUZZ_FILENAME)) =
      .testOneInput (targetFileOf file.m_data) := rfl
  simp only [Relay.serve, run, List.map_cons, List.map_nil, List.foldl_cons, List.foldl_nil, step,
    undisturbed, targetStep, runnerStep, feederStep, sendMessageToClient, sendMessageToServer,
    waitForNewMessageToClient, waitForNewMessageToServer, if_true, afterTarget, hfile, hstub,
    ha₁, ha₂, hb₁, hb₂, hb₃, hb₄, ha₃, ha₄]
  refine ⟨rfl, rfl, rfl, habove, hbelow, ?_, ?_⟩
  · rw [List.map_append]
    rfl
  · rw [List.length_append]
    rfl

/-- Undisturbed, the target opens any files that fit into both mailboxes. -/
theorem exists_served {toFeeder toTarget : Link} (hfeeder : ∀ d, toFeeder.fifo d = 0)
    (htarget : ∀ d, toTarget.fifo d = 0) (files : List SharedMemMessage)
    (hfits : ∀ file ∈ files, runnerIPC.Fits file ∧ targetIPC.Fits file) :
    ∃ events, Served runnerIPC targetIPC files
      ((start toFeeder toTarget).run runnerIPC targetIPC events) := by
  induction files using List.reverseRecOn with
  | nil =>
    exact ⟨_, bringUp_served hfeeder htarget (fits_empty runnerIPC SHARED_MEM_MESSAGE_TARGET_PID)⟩
  | append_singleton files file ih =>
    obtain ⟨events, hserved⟩ := ih fun f hf => hfits f (List.mem_append_left _ hf)
    obtain ⟨hrunner, htarget⟩ := hfits file (List.mem_append_right _ List.mem_cons_self)
    refine ⟨events ++ Relay.serve file, ?_⟩
    rw [run, List.foldl_append]
    exact hserved.serve hrunner htarget

end Undisturbed

/-- Whatever fails, is late or is lost: the target opens the files in the order in which they
were sent, each once and none but the last is missing. The runner has not more answers than
the target opened files, and when it goes on to the next file, the target opened all before. No
wait of the feeder or the target throws. Undisturbed, all files are opened and confirmed. -/
theorem relay_in_step (runnerIPC targetIPC : SharedMemIPC) {toFeeder toTarget : Link}
    (hfeeder : ∀ d, toFeeder.fifo d = 0) (htarget : ∀ d, toTarget.fifo d = 0) :
    (∀ events, let s := (start toFeeder toTarget).run runnerIPC targetIPC events
      s.tested <+: s.sent.map targetFileOf ∧ s.sent.length ≤ s.tested.length + 1 ∧
      s.confirmed ≤ s.tested.length ∧
      (s.runner = .idle → s.tested = s.sent.map targetFileOf ∧ s.confirmed = s.sent.length) ∧
      s.feeder ≠ .ended none ∧ s.target ≠ .ended none) ∧
    ∀ files : List SharedMemMessage,
      (∀ file ∈ files, runnerIPC.Fits file ∧ targetIPC.Fits file) →
      ∃ events, let s := (start toFeeder toTarget).run runnerIPC targetIPC events
        s.runner = .idle ∧ s.tested = files.map (fun file => targetFileOf file.m_data) ∧
        s.confirmed = files.length := by
  constructor
  · intro events s
    obtain ⟨up, down, h⟩ : ∃ up down, s.InStep runnerIPC targetIPC up down :=
      run_inStep events ⟨_, _, start_inStep hfeeder htarget⟩
    have hnames : s.sent.map targetFileOf = s.tested ∨
        ∃ file, s.sent.map targetFileOf = s.tested ++ [file] := h.lower.names_eq
    have hcounted : s.Counted := h.counted
    have hidle : s.runner = .idle → s.tested = s.sent.map targetFileOf :=
      fun hrunner => (h.upper.of_idle hrunner).2.2.2.1.symm
    have hlength : s.sent.length = s.tested.length ∨ s.sent.length = s.tested.length + 1 := by
      have hmap : (s.sent.map targetFileOf).length = s.sent.length := List.length_map _
      rw [← hmap]
      rcases hnames with hnames | ⟨file, hnames⟩
      · exact .inl (congrArg List.length hnames)
      · exact .inr (by rw [hnames, List.length_append, List.length_singleton])
    simp only [Counted] at hcounted
    refine ⟨?_, by omega, ?_, fun hrunner => ⟨hidle hrunner, ?_⟩, h.no_exception⟩
    · rcases hnames with hnames | ⟨file, hnames⟩
      · rw [hnames]
      · rw [hnames]
        exact List.prefix_append _ _
    · split at hcounted
      case h_3 hrunner =>
        have := congrArg List.length (hidle hrunner)
        rw [List.length_map] at this
        omega
      all_goals omega
    · rw [hrunner] at hcounted
      exact hcounted.symm
  · intro files hfits
    obtain ⟨events, hserved⟩ := exists_served hfeeder htarget files hfits
    exact ⟨events, hserved.runner, hserved.tested, hserved.confirmed⟩

/-- A file goes down to the target and its answer up, through two mailboxes of default size. -/
theorem relay_in_step_one :
    ∃ events,
      let s := (start freshLink freshLink).run defaultMapping defaultMapping events
      s.runner = .idle ∧ s.tested = [[47, 116]] ∧ s.confirmed = 1 :=
  (relay_in_step defaultMapping defaultMapping (fun _ => rfl) fun _ => rfl).2
    [⟨SHARED_MEM_MESSAGE_FUZZ_FILENAME, [47, 116, 0], by decide⟩]
    (List.forall_mem_singleton.mpr ⟨Or.inr (by decide), Or.inr (by decide)⟩)

end Relay

end Fluffi.SharedMem
