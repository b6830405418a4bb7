import Fluffi.Shared.Lossless
import Fluffi.Generator.Producers

/-! A runner gets a testcase from a generator. The generator that is asked answers
with the first chunk. For the others the runner turns to the host and port in the
ID of the testcase, which is not always where it got it from. -/

namespace Fluffi.Runner

open Shared Systems Generator

structure GetTestcaseResponse where
  id : FluffiTestcaseID
  parentid : FluffiTestcaseID
  testcasefirstchunk : Bytes
  islastchunk : Bool
  forcefullcoverage : Bool
  success : Bool
  deriving DecidableEq, Repr

/-- No field is set. -/
def GetTestcaseResponse.unset : GetTestcaseResponse :=
  ⟨⟨⟨"", ""⟩, 0⟩, ⟨⟨"", ""⟩, 0⟩, [], false, false, false⟩

/-- `GetTestcaseRequestHandler::handleFLUFFIMessage` -/
def handleGetTestcaseRequest {τ : Type} (C : ℕ) (m_testcaseManager : TGTestcaseManager τ) (now : ℤ)
    (disk : Disk) (leftover : Leftover) (m_testcaseDir : String) :
    Except Abnormal (GetTestcaseResponse × TGTestcaseManager τ) :=
  match m_testcaseManager.popPendingTCForProcessing now with
  | .error _ => .ok (.unset, m_testcaseManager)
  | .ok (testcase, m_testcaseManager) =>
    (loadTestcaseChunkInMemory C disk leftover.heap testcase.m_id m_testcaseDir 0).map
      fun (data, isLastChunk) =>
        (⟨testcase.m_id, testcase.m_parentId, data, isLastChunk.getD leftover.isLastChunk,
          testcase.m_forceFullCoverage, true⟩, m_testcaseManager)

/-- Where a socket connects to without throwing, and who answers chunk requests there. -/
structure Network where
  connects : String → Bool
  chunkSender : String → Option (ChunkSender × SenderRun)

/-- `sendReqAndRecvResp` for a chunk request. -/
def Network.ask (C : ℕ) (net : Network) (destinationHAP : String) (testcaseID : FluffiTestcaseID)
    (k : ℕ) : Except Abnormal (Option GetTestCaseChunkResponse) :=
  if !net.connects destinationHAP then .error .uncaught
  else
    match net.chunkSender destinationHAP with
    | none => .ok none
    | some (sender, run) => run.ask C sender testcaseID k

/-- The result of `getTestcaseFromGenerator`, and where it sent chunk requests to. -/
structure Fetched where
  success : Bool
  host : Host
  requests : List (String × ℕ)

def getTestcaseFromGenerator (C : ℕ) (net : Network) (h : Host) (env : StoreEnv)
    (m_testcaseDir : String) (resp : Option GetTestcaseResponse) : Except Abnormal Fetched :=
  match resp with
  | none => .ok ⟨false, h, []⟩
  | some receivedTestcase =>
    if !receivedTestcase.success then .ok ⟨false, h, []⟩
    else
      let sourceHAP := receivedTestcase.id.m_serviceDescriptor.m_serviceHostAndPort
      (storeTestcaseFileOnDisk h env (net.ask C sourceHAP receivedTestcase.id)
        receivedTestcase.id m_testcaseDir receivedTestcase.testcasefirstchunk
        receivedTestcase.islastchunk).map
        fun stored => ⟨stored.success, stored.host, stored.requests.map (sourceHAP, ·)⟩

/-- The exchange with a generator whose answer is not lost. -/
def fetchFrom (C : ℕ) (net : Network) (h : Host) (env : StoreEnv) (m_testcaseDir : String)
    (generator : TGState) (sender : ChunkSender) (run : SenderRun) : Except Abnormal Fetched :=
  (handleGetTestcaseRequest C generator.manager generator.now (run.disk 0) (run.leftover 0)
    sender.m_testcaseDir).bind fun (resp, _) =>
      getTestcaseFromGenerator C net h env m_testcaseDir (some resp)

/-- The runner has the file, and has sent every chunk request to the generator it got
the testcase from. -/
def FetchedWhole (C : ℕ) (generatorHAP : String) (content : Bytes) (testcaseId : FluffiTestcaseID)
    (testcaseDir : String) (result : Except Abnormal Fetched) : Prop :=
  ∃ fetched, result = .ok fetched ∧ fetched.success = true ∧
    fetched.requests = (List.range' 1 (chunkCount C content.length - 1)).map (generatorHAP, ·) ∧
    fetched.host.files (generateTestcasePathAndFilename testcaseId testcaseDir) = some content

/-! ### The exchange -/

section Exchange

variable {C : ℕ} {net : Network} {h : Host} {env : StoreEnv} {m_testcaseDir : String}
  {generator : TGState} {sender : ChunkSender} {run : SenderRun}
  {front : TestcaseDescriptor ℕ} {rest : List (TestcaseDescriptor ℕ)} {content : Bytes}

/-- The generator hands out the front of its queue with the first chunk of its file. -/
theorem fetchFrom_eq (hC : 0 < C) (hsmall : C < 2 ^ 32)
    (hqueue : generator.manager.m_pendingTestcaseQueue = front :: rest)
    (hfile : run.disk 0 (generateTestcasePathAndFilename front.m_id sender.m_testcaseDir) =
      some (.healthy content)) :
    fetchFrom C net h env m_testcaseDir generator sender run =
      (storeTestcaseFileOnDisk h env
        (net.ask C front.m_id.m_serviceDescriptor.m_serviceHostAndPort front.m_id) front.m_id
        m_testcaseDir (chunk C content 0) (decide (1 = chunkCount C content.length))).map
        fun stored => ⟨stored.success, stored.host,
          stored.requests.map (front.m_id.m_serviceDescriptor.m_serviceHostAndPort, ·)⟩ := by
  have hload := healthy_load hC hsmall hfile (chunkCount_pos _) (run.leftover 0).heap
  simp only [Nat.cast_zero, Nat.zero_add] at hload
  rw [fetchFrom, handleGetTestcaseRequest, TGTestcaseManager.popPendingTCForProcessing, hqueue]
  simp only [TestcaseDescriptor.send, TestcaseDescriptor.increaseNumOfProcessingAttempts,
    TestcaseDescriptor.updateTimeOfLastSend, hload]
  rfl

/-- Asked for itself, the generator answers every request from its file. -/
theorem ask_own (hC : 0 < C) (hsmall : C < 2 ^ 32) {ownHAP : String}
    (hconnects : net.connects ownHAP = true) (hsender : net.chunkSender ownHAP = some (sender, run))
    (hlost : ∀ k, run.lost k = false)
    (hfile : ∀ k, run.disk k (generateTestcasePathAndFilename front.m_id sender.m_testcaseDir) =
      some (.healthy content)) {k : ℕ} (hk : k < chunkCount C content.length) :
    net.ask C ownHAP front.m_id k =
      .ok (some ⟨k, chunk C content k, decide (k + 1 = chunkCount C content.length)⟩) := by
  rw [Network.ask, hconnects, hsender]
  simp only [SenderRun.ask, hlost]
  rw [handleGetTestcaseChunkRequest, healthy_load hC hsmall (hfile k) hk]
  rfl

/-- One chunk is all there is exactly if the file is no longer than it. -/
theorem one_eq_chunkCount_iff (hC : 0 < C) :
    1 = chunkCount C content.length ↔ content.length ≤ C := by
  have hone := lt_chunkCount hC content.length 1
  have hpos := chunkCount_pos (C := C) content.length
  omega

theorem chunk_zero (hshort : content.length ≤ C) : chunk C content 0 = content := by
  rw [chunk, Nat.zero_mul, List.drop_zero, List.take_of_length_le hshort]

/-- Nobody can be asked under the empty host and port. -/
theorem append_nowhere (hempty : net.connects "" = false) (testcaseID : FluffiTestcaseID)
    (increments k : ℕ) (outstream : Bytes) :
    appendRemainingChunks (net.ask C "" testcaseID) increments k outstream =
      .error .uncaught := by
  rw [appendRemainingChunks, Network.ask, hempty]
  rfl

/-- Only a runner that has room for the file and can open it gets it. -/
theorem accepts_of_fetched {generatorHAP firstAsked : String} {firstChunk : Bytes}
    {isLastChunk : Bool} {ask : ℕ → Except Abnormal (Option GetTestCaseChunkResponse)}
    (hfetched : FetchedWhole C generatorHAP content front.m_id m_testcaseDir
      ((storeTestcaseFileOnDisk h env ask front.m_id m_testcaseDir firstChunk isLastChunk).map
        fun stored => ⟨stored.success, stored.host, stored.requests.map (firstAsked, ·)⟩)) :
    HasRoom h env.turns (generateTestcasePathAndFilename front.m_id m_testcaseDir) ∧
      env.opens = true := by
  obtain ⟨fetched, heq, hsuccess, _⟩ := hfetched
  obtain ⟨stored, hstored, rfl⟩ := map_eq_ok heq
  by_contra hno
  have hrefused : stored.success = false := store_refused hno hstored
  rw [hrefused] at hsuccess
  cases hsuccess

/-- A file of more than one chunk is not fetched when the ID names nobody. -/
theorem not_fetched_of_nowhere (hC : 0 < C) (hsmall : C < 2 ^ 32)
    (hqueue : generator.manager.m_pendingTestcaseQueue = front :: rest)
    (hempty : net.connects "" = false)
    (hnowhere : front.m_id.m_serviceDescriptor.m_serviceHostAndPort = "")
    (hfile : run.disk 0 (generateTestcasePathAndFilename front.m_id sender.m_testcaseDir) =
      some (.healthy content)) (hlong : C < content.length) (generatorHAP : String) :
    ¬ FetchedWhole C generatorHAP content front.m_id m_testcaseDir
      (fetchFrom C net h env m_testcaseDir generator sender run) := by
  rw [fetchFrom_eq hC hsmall hqueue hfile]
  intro hfetched
  obtain ⟨hroom, hopens⟩ := accepts_of_fetched hfetched
  obtain ⟨h', hmake⟩ := hroom.makeRoom
  have hmany : ¬ 1 = chunkCount C content.length := fun hone =>
    absurd ((one_eq_chunkCount_iff hC).mp hone) (by omega)
  rw [store_eq _ _ hmake, if_pos hopens, decide_eq_false hmany, if_neg (by decide), hnowhere,
    append_nowhere hempty] at hfetched
  obtain ⟨fetched, heq, _⟩ := hfetched
  cases heq

/-- A testcase of a generator is fetched as it should be exactly if its ID says where the
generator is or its file is no longer than a chunk, its chunks can be counted, and the
runner has room for the file and can open it. -/
theorem fetched_iff (hC : 0 < C) (hsmall : C < 2 ^ 32) {own : FluffiServiceDescriptor}
    {cfg : CleanerConfig} {now : ℤ} {tr : List (TGState × TGEvent)}
    (hr : Run (TGState.next cfg) (.init now) tr generator)
    (hproduced : ∀ p ∈ tr, ∀ ts, p.2 = .generate ts → Produced C own sender.m_testcaseDir ts)
    (hqueue : generator.manager.m_pendingTestcaseQueue = front :: rest)
    (hempty : net.connects "" = false)
    (hconnects : net.connects own.m_serviceHostAndPort = true)
    (hsender : net.chunkSender own.m_serviceHostAndPort = some (sender, run))
    (hlost : ∀ k, run.lost k = false)
    (hfile : ∀ k, run.disk k front.m_pathAndFileName = some (.healthy content)) :
    FetchedWhole C own.m_serviceHostAndPort content front.m_id m_testcaseDir
        (fetchFrom C net h env m_testcaseDir generator sender run) ↔
      (front.m_id.m_serviceDescriptor.m_serviceHostAndPort = own.m_serviceHostAndPort ∨
        content.length ≤ C) ∧
      chunkCount C content.length ≤ INT_MAX ∧
      HasRoom h env.turns (generateTestcasePathAndFilename front.m_id m_testcaseDir) ∧
      env.opens = true := by
  have hplaced : Placed own sender.m_testcaseDir front.m_id front.m_pathAndFileName := by
    have hholds := holds_run hr fun p hp ts hts => (hproduced p hp ts hts).placed
    exact hholds.pending front (by rw [hqueue]; exact List.mem_cons_self)
  rw [hplaced.2] at hfile
  by_cases hnowhere : front.m_id.m_serviceDescriptor.m_serviceHostAndPort = "" ∧ C < content.length
  · -- the ID names nobody, and the first request throws
    refine iff_of_false (not_fetched_of_nowhere hC hsmall hqueue hempty hnowhere.1 (hfile 0)
      hnowhere.2 _) fun hcond => ?_
    rcases hcond.1 with hown | hshort
    · rw [← hown, hnowhere.1, hempty] at hconnects
      cases hconnects
    · omega
  rw [fetchFrom_eq hC hsmall hqueue (hfile 0)]
  by_cases haccepts : HasRoom h env.turns
      (generateTestcasePathAndFilename front.m_id m_testcaseDir) ∧ env.opens = true
  swap
  · exact iff_of_false (fun hfetched => haccepts (accepts_of_fetched hfetched))
      fun hcond => haccepts hcond.2.2
  obtain ⟨h', hmake⟩ := haccepts.1.makeRoom
  rw [store_eq _ _ hmake, if_pos haccepts.2]
  have hfiles := Host.write_files h'
    (generateTestcasePathAndFilename front.m_id m_testcaseDir) content
  by_cases hone : 1 = chunkCount C content.length
  · -- the first chunk is the file, and nothing is asked for
    have hshort : content.length ≤ C := (one_eq_chunkCount_iff hC).mp hone
    rw [if_pos (decide_eq_true hone), chunk_zero hshort]
    refine iff_of_true ⟨_, rfl, rfl, ?_, hfiles⟩ ⟨.inr hshort, ?_, haccepts⟩
    · rw [← hone]
      rfl
    · rw [← hone]
      decide
  · -- the ID names the generator, which answers from its file
    have hN : 1 < chunkCount C content.length := lt_of_le_of_ne (chunkCount_pos _) hone
    have hlong : C < content.length :=
      not_le.mp fun hshort => hone ((one_eq_chunkCount_iff hC).mpr hshort)
    have hown : front.m_id.m_serviceDescriptor = own :=
      hplaced.1.resolve_right fun hempty => hnowhere ⟨hempty, hlong⟩
    rw [decide_eq_false hone, if_neg (by decide), hown,
      append_whole hC hN fun j hj => ask_own hC hsmall hconnects hsender hlost hfile hj]
    by_cases hmax : chunkCount C content.length ≤ INT_MAX
    · rw [if_pos hmax]
      exact iff_of_true ⟨_, rfl, rfl, rfl, hfiles⟩ ⟨.inl rfl, hmax, haccepts⟩
    · rw [if_neg hmax]
      refine iff_of_false ?_ fun hcond => hmax hcond.2.1
      rintro ⟨fetched, heq, _⟩
      cases heq

end Exchange

/-! ### A generator at `tg:1` -/

def sampleOwn : FluffiServiceDescriptor := ⟨"tg:1", "tg"⟩

def sampleParent : FluffiTestcaseID := ⟨⟨"", "guid"⟩, 1⟩

def sampleQueue : ChunkSender := ⟨"queue", false⟩

/-- The generator after the queue filler pushed `ts`. -/
def sampleGenerator (ts : List NewTestcase) : TGState :=
  { TGState.init 0 with manager := ⟨TGState.construct 0 ts, []⟩, nextMark := ts.length }

theorem sampleGenerator_run (cfg : CleanerConfig) (ts : List NewTestcase) :
    Run (TGState.next cfg) (.init 0) [(.init 0, .generate ts)] (sampleGenerator ts) :=
  .single (by simp [TGState.next, sampleGenerator, TGState.init, TGTestcaseManager.empty,
    TGTestcaseManager.pushNewGeneratedTestcases])

/-- Every file has this content, and no request is lost. -/
def sampleRun (content : Bytes) : SenderRun :=
  ⟨fun _ _ => some (.healthy content), fun _ => ⟨false, fun _ => 0⟩, fun _ => false⟩

/-- Only the generator answers. -/
def sampleNetwork (content : Bytes) : Network where
  connects hap := hap != ""
  chunkSender hap := if hap = "tg:1" then some (sampleQueue, sampleRun content) else none

/-- A mutation of three bytes comes in chunks of two. -/
theorem mutation_fetched :
    FetchedWhole 2 "tg:1" [1, 2, 3] ⟨sampleOwn, 7⟩ "run"
      (fetchFrom 2 (sampleNetwork [1, 2, 3]) ⟨fun _ => none, ∅⟩ ⟨[], true⟩ "run"
        (sampleGenerator (batchMutate sampleOwn "queue" sampleParent [.placed] 7).1)
        sampleQueue (sampleRun [1, 2, 3])) :=
  (@fetched_iff 2 (sampleNetwork [1, 2, 3]) ⟨fun _ => none, ∅⟩ ⟨[], true⟩ "run" _ sampleQueue
    (sampleRun [1, 2, 3]) (.new ⟨sampleOwn, 7⟩ sampleParent "queue/tg-7" false 0) [] [1, 2, 3]
    (by decide) (by decide) sampleOwn ⟨3, 100⟩ 0 _ (sampleGenerator_run _ _)
    (by
      rintro p hp ts hts
      obtain rfl := List.mem_singleton.mp hp
      cases hts
      exact .mutations _ _ _)
    (by decide +kernel) rfl rfl rfl (fun _ => rfl) (fun _ => rfl)).mpr
    ⟨.inl rfl, by decide, .inl rfl, rfl⟩

/-- An original that should also run without mutation. -/
def sampleOriginal (content : Bytes) : List NewTestcase :=
  originalToRun (LocalManager.generateGetTestcaseToMutateResponse chunkSizeInBytes
    (some ⟨1, ⟨"guid", 1⟩, ⟨"initial", 0⟩, 0, content, .Population⟩) true (some 0)) "queue" false

/-- Whatever its bytes are, it is queued without host and port. -/
theorem sampleOriginal_eq (content : Bytes) : sampleOriginal content =
    [⟨sampleParent, ⟨⟨"special", "special"⟩, 0⟩, "queue/guid-1", true⟩] := by
  have hname : generateTestcasePathAndFilename sampleParent "queue" = "queue/guid-1" := by decide
  rw [← hname]
  by_cases hone : content.length ≤ chunkSizeInBytes <;>
    simp [sampleOriginal, originalToRun, LocalManager.generateGetTestcaseToMutateResponse, hone,
      LocalManager.InterestingTestcase.id, sampleParent]

/-- If the original is a byte longer than a chunk, the request for the second one throws. -/
theorem original_not_fetched :
    ¬ FetchedWhole chunkSizeInBytes "tg:1" (List.replicate (chunkSizeInBytes + 1) 0) sampleParent
      "run" (fetchFrom chunkSizeInBytes
        (sampleNetwork (List.replicate (chunkSizeInBytes + 1) 0)) ⟨fun _ => none, ∅⟩ ⟨[], true⟩
        "run" (sampleGenerator (sampleOriginal (List.replicate (chunkSizeInBytes + 1) 0)))
        sampleQueue (sampleRun (List.replicate (chunkSizeInBytes + 1) 0))) := by
  have hC : chunkSizeInBytes < 2 ^ 32 := chunkSizeInBytes_lt
  have hlong : chunkSizeInBytes < (List.replicate (chunkSizeInBytes + 1) (0 : UInt8)).length := by
    rw [List.length_replicate]
    exact Nat.lt_succ_self _
  have hqueue : (sampleGenerator (sampleOriginal
      (List.replicate (chunkSizeInBytes + 1) 0))).manager.m_pendingTestcaseQueue =
      [.new sampleParent ⟨⟨"special", "special"⟩, 0⟩ "queue/guid-1" true 0] := by
    rw [sampleOriginal_eq]
    rfl
  exact not_fetched_of_nowhere (by decide) hC hqueue (by decide) rfl rfl hlong "tg:1"

end Fluffi.Runner
