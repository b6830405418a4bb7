import Mathlib.Data.Finset.Insert
import Fluffi.Shared.Files

/-! Sending a testcase in chunks. The first chunk comes with the message that
announces the testcase; the receiver stores it and asks the sender for chunk 1, 2
and so on until one is flagged as the last. The flag is a local variable that the
loading function does not assign on every path, so what it then holds is left over
from before. -/

namespace Fluffi.Shared

open Systems

/-- A machine with its files and the mark set of its garbage collector. -/
structure Host where
  files : String → Option Bytes
  m_setOfFilesToDelete : Finset String

namespace Host

def isFileMarkedForDeletion (h : Host) (candidate : String) : Bool :=
  decide (candidate ∈ h.m_setOfFilesToDelete)

/-- What a collected file leaves behind: neither the file nor its mark. -/
def collected (h : Host) (filename : String) : Host :=
  ⟨fun f => if f = filename then none else h.files f, h.m_setOfFilesToDelete.erase filename⟩

def write (h : Host) (filename : String) (content : Bytes) : Host :=
  { h with files := fun f => if f = filename then some content else h.files f }

/-- The files as they are, readable to their ends. -/
def disk (h : Host) : Disk := fun f => (h.files f).map .healthy

def markFileForDelete (h : Host) (fileToDelete : String) : Host :=
  { h with m_setOfFilesToDelete := insert fileToDelete h.m_setOfFilesToDelete }

@[simp] theorem write_files (h : Host) (filename : String) (content : Bytes) :
    (h.write filename content).files filename = some content := by
  simp [write]

end Host

/-- The files with a limit to what a read delivers. Without one no file can be opened. -/
def limited (files : String → Option Bytes) (readLimit : Option ℕ) : Disk := fun f =>
  (files f).bind fun content => readLimit.map (⟨content, ·⟩)

/-! ### The sender -/

structure GetTestCaseChunkResponse where
  chunkid : ℤ
  testcasechunk : Bytes
  islastchunk : Bool
  deriving DecidableEq, Repr

/-- The agent that answers chunk requests. -/
structure ChunkSender where
  m_testcaseDir : String
  m_deleteFileOnLastChunk : Bool

/-- What uninitialised memory holds during one request. -/
structure Leftover where
  isLastChunk : Bool
  heap : ℕ → UInt8

/-- `GetTestcaseChunkRequestHandler::handleFLUFFIMessage`, with the file it marks
for deletion. -/
def handleGetTestcaseChunkRequest (C : ℕ) (sender : ChunkSender) (disk : Disk)
    (leftover : Leftover) (testcaseID : FluffiTestcaseID) (chunkid : ℤ) :
    Except Abnormal (GetTestCaseChunkResponse × Option String) :=
  (loadTestcaseChunkInMemory C disk leftover.heap testcaseID sender.m_testcaseDir chunkid).map
    fun (data, assigned) =>
      let isLastChunk := assigned.getD leftover.isLastChunk
      (⟨chunkid, data, isLastChunk⟩,
        if isLastChunk && sender.m_deleteFileOnLastChunk then
          some (generateTestcasePathAndFilename testcaseID sender.m_testcaseDir)
        else none)

/-! ### The receiver -/

/-- The largest `int`. -/
def INT_MAX : ℕ := 2 ^ 31 - 1

/-- The result of `appendRemainingChunks`, the file it wrote and what it asked for. -/
structure Appended where
  success : Bool
  outstream : Bytes
  requests : List ℕ
  deriving DecidableEq, Repr

def Appended.after (chunkID : ℕ) (a : Appended) : Appended :=
  { a with requests := chunkID :: a.requests }

/-- The loop of `appendRemainingChunks`, where `increments` is how often `chunkID`
can still be incremented and `ask` is `sendReqAndRecvResp`. -/
def appendRemainingChunks
    (ask : ℕ → Except Abnormal (Option GetTestCaseChunkResponse)) :
    (increments : ℕ) → (chunkID : ℕ) → (outstream : Bytes) → Except Abnormal Appended
  | increments, chunkID, outstream =>
    match ask chunkID with
    | .error abnormal => .error abnormal
    | .ok none => .ok ⟨false, outstream, [chunkID]⟩
    | .ok (some receivedTestcaseChunk) =>
      let outstream := outstream ++ receivedTestcaseChunk.testcasechunk
      match increments with
      | 0 => .error .signedOverflow
      | increments + 1 =>
        if receivedTestcaseChunk.islastchunk then .ok ⟨true, outstream, [chunkID]⟩
        else (appendRemainingChunks ask increments (chunkID + 1) outstream).map (.after chunkID)

/-- One turn of the loop that waits for the garbage collector: is a stop requested
when the turn begins, and is the file gone when it ends? -/
structure WaitTurn where
  m_stopRequested : Bool
  deleted : Bool
  deriving DecidableEq, Repr

def WaitTurn.ends (turn : WaitTurn) : Bool := turn.m_stopRequested || turn.deleted

/-- The loop itself: is the file gone when it ends? -/
def waitForDeletion : List WaitTurn → Except Abnormal Bool
  | [] => .error .stillWaiting
  | turn :: turns =>
    if turn.m_stopRequested then .ok false
    else if turn.deleted then .ok true
    else waitForDeletion turns

/-- What else happens at the receiver during one store. -/
structure StoreEnv where
  turns : List WaitTurn
  opens : Bool

/-- The receiver with room for the file, or `none` when the store is refused. -/
def makeRoom (h : Host) (turns : List WaitTurn) (filename : String) :
    Except Abnormal (Option Host) :=
  match h.files filename with
  | none => .ok (some h)
  | some _ =>
    if h.isFileMarkedForDeletion filename then
      (waitForDeletion turns).map fun deleted =>
        if deleted then some (h.collected filename) else none
    else .ok none

structure Stored where
  success : Bool
  host : Host
  requests : List ℕ

def storeTestcaseFileOnDisk (h : Host) (env : StoreEnv)
    (ask : ℕ → Except Abnormal (Option GetTestCaseChunkResponse)) (testcaseId : FluffiTestcaseID)
    (testcaseDir : String) (firstChunk : Bytes) (isLastChunk : Bool) : Except Abnormal Stored :=
  let filename := generateTestcasePathAndFilename testcaseId testcaseDir
  (makeRoom h env.turns filename).bind fun room =>
    match room with
    | none => .ok ⟨false, h, []⟩
    | some h =>
      if !env.opens then .ok ⟨false, h, []⟩
      else if isLastChunk then .ok ⟨true, h.write filename firstChunk, []⟩
      else
        (appendRemainingChunks ask (INT_MAX - 1) 1 firstChunk).map fun appended =>
          ⟨appended.success, h.write filename appended.outstream, appended.requests⟩

/-- The sender during one transfer: its disk and its uninitialised memory at each
request, and the requests that are lost. Request 0 loads the first chunk. -/
structure SenderRun where
  disk : ℕ → Disk
  leftover : ℕ → Leftover
  lost : ℕ → Bool

def SenderRun.ask (C : ℕ) (sender : ChunkSender) (run : SenderRun) (testcaseId : FluffiTestcaseID)
    (k : ℕ) : Except Abnormal (Option GetTestCaseChunkResponse) :=
  if run.lost k then .ok none
  else
    (handleGetTestcaseChunkRequest C sender (run.disk k) (run.leftover k) testcaseId k).map
      fun answer => some answer.1

/-- The whole transfer: the sender loads and sends the first chunk, the receiver
stores it and fetches the rest. -/
def transfer (C : ℕ) (sender : ChunkSender) (run : SenderRun) (h : Host) (env : StoreEnv)
    (testcaseId : FluffiTestcaseID) (testcaseDir : String) : Except Abnormal Stored :=
  (loadTestcaseChunkInMemory C (run.disk 0) (run.leftover 0).heap testcaseId
      sender.m_testcaseDir 0).bind fun (firstChunk, assigned) =>
    storeTestcaseFileOnDisk h env (run.ask C sender testcaseId) testcaseId testcaseDir firstChunk
      (assigned.getD (run.leftover 0).isLastChunk)

end Fluffi.Shared
