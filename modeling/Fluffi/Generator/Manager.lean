import Mathlib.Data.Multiset.Filter
import Mathlib.Algebra.Order.Group.Multiset
import Mathlib.Data.List.Perm.Basic
import Mathlib.Data.List.Range
import Fluffi.Shared.Identity

/-! The queue manager of the testcase generator: the pending queue, the testcases
that were sent and not yet evaluated, and the operations that move descriptors
between the two. Time points of the steady clock are integers of milliseconds.
Each descriptor carries a ghost mark of an arbitrary type. No operation can look
at it, and at `Unit` the record is the class of the source. -/

namespace Fluffi.Generator

open Shared

structure TestcaseDescriptor (τ : Type) where
  m_id : FluffiTestcaseID
  m_parentId : FluffiTestcaseID
  m_pathAndFileName : String
  m_numOfProcessingAttempts : ℕ
  m_timeOfLastSend : ℤ
  m_forceFullCoverage : Bool
  mark : τ
  deriving DecidableEq, Repr

namespace TestcaseDescriptor

variable {τ υ : Type}

/-- The constructor. A default constructed time point is the epoch of its clock. -/
def new (id parentId : FluffiTestcaseID) (pathAndFileName : String) (forceFullCoverage : Bool)
    (mark : τ) : TestcaseDescriptor τ :=
  ⟨id, parentId, pathAndFileName, 0, 0, forceFullCoverage, mark⟩

def increaseNumOfProcessingAttempts (d : TestcaseDescriptor τ) : TestcaseDescriptor τ :=
  { d with m_numOfProcessingAttempts := d.m_numOfProcessingAttempts + 1 }

def updateTimeOfLastSend (now : ℤ) (d : TestcaseDescriptor τ) : TestcaseDescriptor τ :=
  { d with m_timeOfLastSend := now }

/-- What `popPendingTCForProcessing` does to the descriptor it sends. -/
def send (now : ℤ) (d : TestcaseDescriptor τ) : TestcaseDescriptor τ :=
  d.increaseNumOfProcessingAttempts.updateTimeOfLastSend now

/-- The file name `deleteFile` marks at the garbage collector. -/
def deleteFile (d : TestcaseDescriptor τ) : String := d.m_pathAndFileName

def withMark (d : TestcaseDescriptor τ) (m : υ) : TestcaseDescriptor υ :=
  ⟨d.m_id, d.m_parentId, d.m_pathAndFileName, d.m_numOfProcessingAttempts, d.m_timeOfLastSend,
    d.m_forceFullCoverage, m⟩

/-- Forget the mark. -/
def erase (d : TestcaseDescriptor τ) : TestcaseDescriptor Unit := d.withMark ()

/-- The descriptor without the two fields a send updates: the testcase itself. -/
def testcase (d : TestcaseDescriptor τ) : TestcaseDescriptor τ :=
  { d with m_numOfProcessingAttempts := 0, m_timeOfLastSend := 0 }

@[simp] theorem send_mark (now : ℤ) (d : TestcaseDescriptor τ) :
    (d.send now).mark = d.mark := rfl

@[simp] theorem send_attempts (now : ℤ) (d : TestcaseDescriptor τ) :
    (d.send now).m_numOfProcessingAttempts = d.m_numOfProcessingAttempts + 1 := rfl

@[simp] theorem send_testcase (now : ℤ) (d : TestcaseDescriptor τ) :
    (d.send now).testcase = d.testcase := rfl

@[simp] theorem erase_send (now : ℤ) (d : TestcaseDescriptor τ) :
    (d.send now).erase = d.erase.send now := rfl

end TestcaseDescriptor

open TestcaseDescriptor

structure TGTestcaseManager (τ : Type) where
  m_pendingTestcaseQueue : List (TestcaseDescriptor τ)
  m_sentButNotEvaluatedTestcaseSet : List (TestcaseDescriptor τ)
  deriving DecidableEq, Repr

namespace TGTestcaseManager

variable {τ : Type}

/-- The manager as constructed. -/
def empty : TGTestcaseManager τ := ⟨[], []⟩

def pushNewGeneratedTestcase (m : TGTestcaseManager τ) (newTestcase : TestcaseDescriptor τ) :
    TGTestcaseManager τ :=
  { m with m_pendingTestcaseQueue := m.m_pendingTestcaseQueue ++ [newTestcase] }

def pushNewGeneratedTestcases (m : TGTestcaseManager τ)
    (newTestcases : List (TestcaseDescriptor τ)) : TGTestcaseManager τ :=
  { m with m_pendingTestcaseQueue := m.m_pendingTestcaseQueue ++ newTestcases }

/-- The error is the text of the thrown `std::runtime_error`. -/
def popPendingTCForProcessing (m : TGTestcaseManager τ) (now : ℤ) :
    Except String (TestcaseDescriptor τ × TGTestcaseManager τ) :=
  match m.m_pendingTestcaseQueue with
  | front :: rest =>
    let testcase := front.send now
    .ok (testcase, ⟨rest, m.m_sentButNotEvaluatedTestcaseSet ++ [testcase]⟩)
  | [] => .error "No pending testcases"

/-- The loop that the three operations below share: walk over the sent set and
take out, in order, the descriptors that `leaves` selects. -/
def takeOut (m : TGTestcaseManager τ) (leaves : TestcaseDescriptor τ → Bool) :
    List (TestcaseDescriptor τ) × TGTestcaseManager τ :=
  let (gone, kept) := m.m_sentButNotEvaluatedTestcaseSet.partition leaves
  (gone, { m with m_sentButNotEvaluatedTestcaseSet := kept })

def isEvaluated (evaluatedTestcases : List FluffiTestcaseID) (d : TestcaseDescriptor τ) : Bool :=
  evaluatedTestcases.any (· == d.m_id)

/-- Drops what was evaluated; the caller marks the files of the dropped
descriptors for deletion. -/
def removeEvaluatedTestcases (m : TGTestcaseManager τ)
    (evaluatedTestcases : List FluffiTestcaseID) :
    List (TestcaseDescriptor τ) × TGTestcaseManager τ :=
  m.takeOut (isEvaluated evaluatedTestcases)

def reinsertTestcasesHavingNoAnswerSince (m : TGTestcaseManager τ)
    (timeBeforeWhichShouldBeReinserted : ℤ) : TGTestcaseManager τ :=
  let (gone, m') := m.takeOut (fun it => it.m_timeOfLastSend < timeBeforeWhichShouldBeReinserted)
  m'.pushNewGeneratedTestcases gone

def handMeAllTestcasesWithTooManyRetries (m : TGTestcaseManager τ) (maxRetriesBeforeReport : ℤ) :
    List (TestcaseDescriptor τ) × TGTestcaseManager τ :=
  m.takeOut (fun it => maxRetriesBeforeReport ≤ (it.m_numOfProcessingAttempts : ℤ))

/-- Everything the manager holds. -/
def contents (m : TGTestcaseManager τ) : List (TestcaseDescriptor τ) :=
  m.m_pendingTestcaseQueue ++ m.m_sentButNotEvaluatedTestcaseSet

/-- Forget the marks. -/
def erase (m : TGTestcaseManager τ) : TGTestcaseManager Unit :=
  ⟨m.m_pendingTestcaseQueue.map TestcaseDescriptor.erase,
    m.m_sentButNotEvaluatedTestcaseSet.map TestcaseDescriptor.erase⟩

/-! ### What each operation does -/

theorem takeOut_eq (m : TGTestcaseManager τ) (leaves : TestcaseDescriptor τ → Bool) :
    m.takeOut leaves = (m.m_sentButNotEvaluatedTestcaseSet.filter leaves,
      ⟨m.m_pendingTestcaseQueue, m.m_sentButNotEvaluatedTestcaseSet.filter (!leaves ·)⟩) := by
  simp only [takeOut, List.partition_eq_filter_filter]
  rfl

/-- The loop over the sent set loses nothing. -/
theorem coe_filter_add (l : List (TestcaseDescriptor τ)) (p : TestcaseDescriptor τ → Bool) :
    ((l.filter p : List _) : Multiset (TestcaseDescriptor τ)) + (l.filter (!p ·) : List _) = l :=
  Multiset.coe_eq_coe.mpr (List.filter_append_perm p l)

theorem isEvaluated_iff (ids : List FluffiTestcaseID) (d : TestcaseDescriptor τ) :
    isEvaluated ids d = true ↔ d.m_id.key ∈ ids.map FluffiTestcaseID.key :=
  FluffiTestcaseID.any_beq_iff ids d.m_id

/-- A pop either throws on the empty queue or sends the front descriptor. -/
theorem pop_cases (m : TGTestcaseManager τ) (now : ℤ) :
    (m.m_pendingTestcaseQueue = [] ∧
      m.popPendingTCForProcessing now = .error "No pending testcases") ∨
    ∃ front rest, m.m_pendingTestcaseQueue = front :: rest ∧
      m.popPendingTCForProcessing now = .ok (front.send now,
        ⟨rest, m.m_sentButNotEvaluatedTestcaseSet ++ [front.send now]⟩) := by
  unfold popPendingTCForProcessing
  cases h : m.m_pendingTestcaseQueue with
  | nil => exact .inl ⟨rfl, rfl⟩
  | cons front rest => exact .inr ⟨front, rest, rfl, rfl⟩

/-- Reinsertion moves the old sends to the back of the pending queue. -/
theorem reinsert_eq (m : TGTestcaseManager τ) (before : ℤ) :
    m.reinsertTestcasesHavingNoAnswerSince before =
      ⟨m.m_pendingTestcaseQueue ++
          m.m_sentButNotEvaluatedTestcaseSet.filter (fun it => it.m_timeOfLastSend < before),
        m.m_sentButNotEvaluatedTestcaseSet.filter
          (fun it => !decide (it.m_timeOfLastSend < before))⟩ := by
  simp only [reinsertTestcasesHavingNoAnswerSince, takeOut_eq, pushNewGeneratedTestcases]

theorem handMe_eq (m : TGTestcaseManager τ) (max : ℤ) :
    m.handMeAllTestcasesWithTooManyRetries max =
      (m.m_sentButNotEvaluatedTestcaseSet.filter
          (fun it => max ≤ (it.m_numOfProcessingAttempts : ℤ)),
        ⟨m.m_pendingTestcaseQueue, m.m_sentButNotEvaluatedTestcaseSet.filter
          (fun it => !decide (max ≤ (it.m_numOfProcessingAttempts : ℤ)))⟩) :=
  takeOut_eq m _

theorem removeEvaluated_eq (m : TGTestcaseManager τ) (ids : List FluffiTestcaseID) :
    m.removeEvaluatedTestcases ids =
      (m.m_sentButNotEvaluatedTestcaseSet.filter (isEvaluated ids),
        ⟨m.m_pendingTestcaseQueue,
          m.m_sentButNotEvaluatedTestcaseSet.filter (!isEvaluated ids ·)⟩) :=
  takeOut_eq m _

/-! ### The marks are ghosts -/

theorem erase_takeOut (m : TGTestcaseManager τ) (p : TestcaseDescriptor Unit → Bool) :
    (m.takeOut (fun d => p d.erase)).2.erase = (m.erase.takeOut p).2 := by
  simp only [takeOut_eq, erase, List.filter_map]
  rfl

theorem erase_reinsert (m : TGTestcaseManager τ) (before : ℤ) :
    (m.reinsertTestcasesHavingNoAnswerSince before).erase =
      m.erase.reinsertTestcasesHavingNoAnswerSince before := by
  simp only [reinsert_eq, erase, List.map_append, List.filter_map]
  rfl

theorem erase_pushes (m : TGTestcaseManager τ) (ds : List (TestcaseDescriptor τ)) :
    (m.pushNewGeneratedTestcases ds).erase =
      m.erase.pushNewGeneratedTestcases (ds.map TestcaseDescriptor.erase) := by
  simp [pushNewGeneratedTestcases, erase]

end TGTestcaseManager

end Fluffi.Generator
