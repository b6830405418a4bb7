import Fluffi.Shared.Identity
import Fluffi.SharedMem.Mailbox

/-! The feeders of a test executor. Every start of a feeder gets a new mailbox
under a new name, and the feeders of earlier starts may go on working on theirs.
A mailbox has one slot for a question and one for an answer, and neither says
which testcase it is about; the number of a sending is ours. -/

namespace Fluffi.Runner

open Shared SharedMem SharedMemMessageType

/-- What a runner tells a feeder, with the number of the sending. -/
inductive Question where
  | TARGET_PID
  | FUZZ_FILENAME (sending : ℕ) (testcaseId : FluffiTestcaseID)
  deriving DecidableEq

/-- The messages a feeder may answer with. -/
def Question.allows : Question → SharedMemMessageType → Bool
  | .TARGET_PID, answer =>
    answer == SHARED_MEM_MESSAGE_READY_TO_FUZZ ||
      answer == SHARED_MEM_MESSAGE_FEEDER_COULD_NOT_INITIALIZE
  | .FUZZ_FILENAME _ _, answer =>
    answer == SHARED_MEM_MESSAGE_FUZZ_DONE || answer == SHARED_MEM_MESSAGE_TARGET_CRASHED

structure Answer where
  messageType : SharedMemMessageType
  question : Question
  deriving DecidableEq

/-- An announced question, the question the feeder works on, an announced answer. -/
structure Mailbox where
  toClient : Option Question
  working : Option Question
  toServer : Option Answer
  deriving DecidableEq

inductive FeederStep where
  | take
  | answer (messageType : SharedMemMessageType)
  deriving DecidableEq

namespace Mailbox

def empty : Mailbox := ⟨none, none, none⟩

/-- A step the feeder cannot take changes nothing. -/
def feeder (box : Mailbox) : FeederStep → Mailbox
  | .take =>
    match box.working, box.toClient with
    | none, some question => { box with toClient := none, working := some question }
    | _, _ => box
  | .answer messageType =>
    match box.working with
    | some question =>
      if question.allows messageType then
        { box with working := none, toServer := some ⟨messageType, question⟩ }
      else box
    | none => box

/-- Exactly one message is on its way, and it belongs to the question. -/
inductive About (question : Question) : Mailbox → Prop
  | asked : About question ⟨some question, none, none⟩
  | working : About question ⟨none, some question, none⟩
  | answered (messageType : SharedMemMessageType) (h : question.allows messageType = true) :
      About question ⟨none, none, some ⟨messageType, question⟩⟩

theorem empty_feeder (step : FeederStep) : empty.feeder step = empty := by
  cases step <;> rfl

theorem About.feeder {question : Question} {box : Mailbox} (h : About question box)
    (step : FeederStep) : About question (box.feeder step) := by
  cases h with
  | asked =>
    cases step with
    | take => exact .working
    | answer => exact .asked
  | working =>
    cases step with
    | take => exact .working
    | answer messageType =>
      simp only [Mailbox.feeder]
      split
      case isTrue hallows => exact .answered messageType hallows
      case isFalse => exact .working
  | answered messageType hallows =>
    cases step with
    | take => exact .answered messageType hallows
    | answer => exact .answered messageType hallows

end Mailbox

/-- The mailboxes made so far, numbered from one; the last is the one in use. -/
structure Feeders where
  boxes : ℕ → Mailbox
  m_sharedMemIPC_toFeeder : ℕ

/-- What the feeders of all mailboxes do between two steps of the runner. -/
abbrev Moves := List (ℕ × FeederStep)

namespace Feeders

def move (f : Feeders) (m : ℕ × FeederStep) : Feeders :=
  { f with boxes := Function.update f.boxes m.1 ((f.boxes m.1).feeder m.2) }

def moves (f : Feeders) (ms : Moves) : Feeders := ms.foldl move f

/-- A mailbox under a new name. -/
def create (f : Feeders) : Feeders :=
  ⟨Function.update f.boxes (f.m_sharedMemIPC_toFeeder + 1) .empty, f.m_sharedMemIPC_toFeeder + 1⟩

def current (f : Feeders) : Mailbox := f.boxes f.m_sharedMemIPC_toFeeder

def replaceCurrent (f : Feeders) (box : Mailbox) : Feeders :=
  { f with boxes := Function.update f.boxes f.m_sharedMemIPC_toFeeder box }

def sendMessageToClient (f : Feeders) (question : Question) : Feeders :=
  f.replaceCurrent { f.current with toClient := some question }

/-- The type of the message a wait leaves behind, and the answer it took. -/
def waitForNewMessageToServer (f : Feeders) (call : WaitCall) :
    SharedMemMessageType × Option Answer × Feeders :=
  if WaitCall.failed call.errors then (SHARED_MEM_MESSAGE_TRANSMISSION_ERROR, none, f)
  else if call.interrupted then (SHARED_MEM_MESSAGE_WAIT_INTERRUPTED, none, f)
  else match f.current.toServer with
    | none => (SHARED_MEM_MESSAGE_TRANSMISSION_TIMEOUT, none, f)
    | some answer =>
      (answer.messageType, some answer, f.replaceCurrent { f.current with toServer := none })

/-- Nothing is on its way in the mailbox in use. -/
def Idle (f : Feeders) : Prop := f.current = .empty

/-- The only message on its way in the mailbox in use belongs to the question. -/
def Asked (question : Question) (f : Feeders) : Prop := f.current.About question

variable {f : Feeders} {question : Question}

@[simp] theorem moves_box (ms : Moves) :
    (f.moves ms).m_sharedMemIPC_toFeeder = f.m_sharedMemIPC_toFeeder := by
  induction ms generalizing f with
  | nil => rfl
  | cons m ms ih => exact ih

@[simp] theorem send_box (q : Question) :
    (f.sendMessageToClient q).m_sharedMemIPC_toFeeder = f.m_sharedMemIPC_toFeeder := rfl

@[simp] theorem current_replaceCurrent (box : Mailbox) : (f.replaceCurrent box).current = box := by
  simp [replaceCurrent, current]

/-- A move of any feeder leaves the mailbox in use alone or is a step of its feeder. -/
theorem current_move (m : ℕ × FeederStep) :
    (f.move m).current = f.current ∨ (f.move m).current = f.current.feeder m.2 := by
  simp only [current, move]
  by_cases hm : f.m_sharedMemIPC_toFeeder = m.1
  · right
    rw [hm, Function.update_self]
  · left
    rw [Function.update_of_ne hm]

/-- What a feeder's step keeps of a mailbox, the moves of all feeders keep of the one in use. -/
theorem current_moves {P : Mailbox → Prop} (hstep : ∀ box step, P box → P (box.feeder step))
    (h : P f.current) (ms : Moves) : P (f.moves ms).current := by
  induction ms generalizing f with
  | nil => exact h
  | cons m ms ih =>
    apply ih (f := f.move m)
    cases current_move (f := f) m with
    | inl hsame =>
      rw [hsame]
      exact h
    | inr hfeeder =>
      rw [hfeeder]
      exact hstep _ _ h

theorem Idle.moves (h : f.Idle) (ms : Moves) : (f.moves ms).Idle := by
  apply current_moves (P := fun box => box = .empty) _ h
  rintro box step rfl
  exact Mailbox.empty_feeder step

theorem Asked.moves (h : f.Asked question) (ms : Moves) : (f.moves ms).Asked question :=
  current_moves (fun _ step hbox => hbox.feeder step) h ms

theorem create_idle : f.create.Idle := by simp [Idle, create, current]

theorem Idle.send (h : f.Idle) : (f.sendMessageToClient question).Asked question := by
  have hcurrent : f.current = .empty := h
  simp only [Asked, sendMessageToClient, current_replaceCurrent, hcurrent]
  exact .asked

theorem wait_box (call : WaitCall) :
    (f.waitForNewMessageToServer call).2.2.m_sharedMemIPC_toFeeder =
      f.m_sharedMemIPC_toFeeder := by
  simp only [waitForNewMessageToServer]
  split_ifs
  · rfl
  · rfl
  · cases f.current.toServer <;> rfl

/-- A wait for the answer to a question: it ends without a message, or it takes
the answer to this question and the mailbox is idle again. -/
theorem Asked.wait (h : f.Asked question) (call : WaitCall) :
    ((f.waitForNewMessageToServer call).2.1 = none ∧
        ((f.waitForNewMessageToServer call).1 = SHARED_MEM_MESSAGE_TRANSMISSION_ERROR ∨
          (f.waitForNewMessageToServer call).1 = SHARED_MEM_MESSAGE_WAIT_INTERRUPTED ∨
          (f.waitForNewMessageToServer call).1 = SHARED_MEM_MESSAGE_TRANSMISSION_TIMEOUT)) ∨
      (∃ answer, (f.waitForNewMessageToServer call).2.1 = some answer ∧
        answer.question = question ∧
        (f.waitForNewMessageToServer call).1 = answer.messageType ∧
        (f.waitForNewMessageToServer call).2.2.Idle) := by
  simp only [waitForNewMessageToServer]
  split_ifs
  · exact .inl ⟨rfl, .inl rfl⟩
  · exact .inl ⟨rfl, .inr (.inl rfl)⟩
  · have habout : f.current.About question := h
    generalize hbox : f.current = box at habout
    cases habout with
    | asked => exact .inl ⟨rfl, .inr (.inr rfl)⟩
    | working => exact .inl ⟨rfl, .inr (.inr rfl)⟩
    | answered messageType hallows =>
      refine .inr ⟨⟨messageType, question⟩, rfl, rfl, rfl, ?_⟩
      exact current_replaceCurrent _

end Feeders

end Fluffi.Runner
