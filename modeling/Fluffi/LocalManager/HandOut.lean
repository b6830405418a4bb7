import Fluffi.LocalManager.Database
import Fluffi.Shared.GarbageCollector
import Fluffi.Shared.Transfer

/-! The local manager hands a testcase out to be mutated. The first chunk comes
from the database. If there are more, all bytes are written to a temporary file,
and the chunk requests that follow are answered from it. The file is the same for
every generator that is sent the testcase. -/

namespace Fluffi.LocalManager

open Shared Systems
open GarbageCollector (Hand CollectorStep collectGarbage markFileForDelete)

structure GetTestcaseToMutateResponse where
  id : FluffiTestcaseID
  testcasefirstchunk : Bytes
  islastchunk : Bool
  alsorunwithoutmutation : Bool
  deriving DecidableEq, Repr

/-- No field is set. -/
def GetTestcaseToMutateResponse.unset : GetTestcaseToMutateResponse :=
  ⟨⟨⟨"", ""⟩, 0⟩, [], false, false⟩

/-- Host and port of the creator are not in the database. -/
def InterestingTestcase.id (row : InterestingTestcase) : FluffiTestcaseID :=
  ⟨⟨"", row.Creator.guid⟩, row.Creator.localID⟩

/-- `creatorLocalID` is a `long long`. -/
def creatorLocalID (localID : UInt64) : ℤ :=
  if localID.toNat < 2 ^ 63 then localID.toNat else localID.toNat - 2 ^ 64

/-- The temporary file, with the ID printed as a signed number. -/
def handOutFilename (row : InterestingTestcase) (testcaseTempDir : String) : String :=
  testcaseTempDir ++ pathSeperator ++ row.Creator.guid ++ "-" ++
    toString (creatorLocalID row.Creator.localID)

/-- `generateGetTestcaseToMutateResponse`, where `row` is the result of the query,
`opens` says if the temporary file can be opened, and `countOfBlocks` is the number
of blocks covered by the testcase, if it could be determined. -/
def generateGetTestcaseToMutateResponse (C : ℕ) (row : Option InterestingTestcase) (opens : Bool)
    (countOfBlocks : Option ℕ) : GetTestcaseToMutateResponse :=
  match row with
  | none => .unset
  | some row =>
    let isOnlyOneChunk := decide (row.RawBytes.length ≤ C)
    if !isOnlyOneChunk && !opens then .unset
    else
      ⟨row.id, row.RawBytes.take C, isOnlyOneChunk, countOfBlocks == some 0⟩

/-- `fwrite` at an offset of an open file. A gap before it reads as zeros. -/
def writeAt (bytes : Bytes) (offset : ℕ) (piece : Bytes) : Bytes :=
  (bytes ++ List.replicate (offset - bytes.length) 0).take offset ++ piece ++
    bytes.drop (offset + piece.length)

/-- One sending of the testcase. The file is being rewritten (`linked` is false once
the open file has lost its name), or the generator fetches chunks, or it has got the
last one. -/
inductive Sending where
  | waiting
  | rewriting (offset : ℕ) (linked : Bool)
  | downloading (received : Bytes) (chunkID : ℕ)
  | complete (received : Bytes)
  | failed
  deriving DecidableEq, Repr

def Sending.unlink : Sending → Sending
  | .rewriting offset _ => .rewriting offset false
  | sending => sending

/-- The temporary file of one testcase, its mark, the collectors and the sendings. -/
structure HandOut where
  file : Option Bytes
  marked : Option ℕ
  hand : ℕ → Hand
  sending : ℕ → Sending

inductive HandOutAction where
  /-- The testcase is sent once more; the file is opened for writing. -/
  | openFile (opens : Bool)
  | fwrite (n : ℕ)
  | respond
  | requestChunk (leftover : Leftover)
  | collect (step : CollectorStep)

namespace HandOut

/-- What a chunk request finds. -/
def disk (s : HandOut) (filename : String) : Disk :=
  fun f => if f = filename then s.file.map .healthy else none

def move (s : HandOut) (i : ℕ) (sending : Sending) : HandOut :=
  { s with sending := Function.update s.sending i sending }

/-- One step of sending `i`, or of collector `i`. -/
def next (C : ℕ) (row : InterestingTestcase) (testcaseTempDir : String) (s : HandOut) :
    ℕ × HandOutAction → Option HandOut
  | (i, .openFile opens) =>
    match s.sending i with
    | .waiting =>
      let response := generateGetTestcaseToMutateResponse C (some row) opens none
      if response.islastchunk then some (s.move i (.complete response.testcasefirstchunk))
      else if !opens then some (s.move i .failed)
      else if handOutFilename row testcaseTempDir =
          generateTestcasePathAndFilename row.id testcaseTempDir then
        some ({ s with file := some [] }.move i (.rewriting 0 true))
      else some (s.move i (.rewriting 0 false))
    | _ => none
  | (i, .fwrite n) =>
    match s.sending i with
    | .rewriting offset linked =>
      let piece := (row.RawBytes.drop offset).take n
      let file := if linked then s.file.map (writeAt · offset piece) else s.file
      some ({ s with file := file }.move i (.rewriting (offset + piece.length) linked))
    | _ => none
  | (i, .respond) =>
    match s.sending i with
    | .rewriting offset _ =>
      if offset < row.RawBytes.length then none
      else
        let response := generateGetTestcaseToMutateResponse C (some row) true none
        some (s.move i (.downloading response.testcasefirstchunk 1))
    | _ => none
  | (i, .requestChunk leftover) =>
    match s.sending i with
    | .downloading received chunkID =>
      match handleGetTestcaseChunkRequest C ⟨testcaseTempDir, true⟩
          (s.disk (generateTestcasePathAndFilename row.id testcaseTempDir)) leftover row.id
          chunkID with
      | .error _ => none
      | .ok (response, toDelete) =>
        let received := received ++ response.testcasechunk
        let marked := if toDelete.isSome then markFileForDelete s.marked 0 else s.marked
        some ({ s with marked := marked }.move i
          (if response.islastchunk then .complete received
          else .downloading received (chunkID + 1)))
    | _ => none
  | (i, .collect step) =>
    (collectGarbage s.file.isSome s.marked (s.hand i) step).map fun (present, marked, hand) =>
      { file := if present then s.file else none
        marked := marked
        hand := Function.update s.hand i hand
        sending := if present then s.sending else fun j => (s.sending j).unlink }

/-- The directory is new. -/
structure Start (s : HandOut) : Prop where
  file : s.file = none
  marked : s.marked = none
  waiting : ∀ i, s.sending i = .waiting

end HandOut

end Fluffi.LocalManager
