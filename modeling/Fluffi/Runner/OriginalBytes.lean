import Fluffi.Runner.GdbSignals
import Fluffi.Runner.InfoFiles
import Mathlib.Data.List.Sort

/-! The end of `gdbPrepareForDebug`: the bytes under all breakpoints are read from one answer
of GDB. The loop goes over the lines and stays at a block until a line answers it. Whether a
block is left is asked only behind a line that answers one, so a line behind the last answer
is compared with a block that does not exist. -/

namespace Fluffi.Runner.Gdb

open Shared Systems

/-- `std::map<int, uint64_t>` -/
abbrev BaseMap := List (Int32 × UInt64)

namespace BaseMap

/-- `insert` of the map, which keeps an entry that is there. -/
def insert (modmap : BaseMap) (moduleid : Int32) (base : UInt64) : BaseMap :=
  if modmap.any (·.1 == moduleid) then modmap else modmap ++ [(moduleid, base)]

/-- `operator[]` -/
def base (modmap : BaseMap) (moduleid : Int32) : UInt64 := (modmap.lookup moduleid).getD 0

end BaseMap

structure Module where
  m_modulename : Line
  m_modulepath : Line
  m_moduleid : Int32

def Module.isNull (m : Module) : Bool :=
  ["".toList, "NULL".toList, "0".toList].contains m.m_modulename

def Module.isLoadedFrom (m : Module) (file : ModuleInformation) : Bool :=
  m.m_modulename == file.name ++ "/".toList ++ file.segmentName &&
    (m.m_modulepath == "*".toList || m.m_modulepath == file.path)

/-- `none` where the process ends. -/
def getBaseAddressesForModules (modulesToCover : List Module) (parseInfoOutput : Line) :
    Option BaseMap :=
  let modmap := (modulesToCover.filter Module.isNull).foldl
    (fun modmap m => BaseMap.insert modmap m.m_moduleid 0) []
  (parseInfoFiles parseInfoOutput).map fun loadedFiles =>
    loadedFiles.foldl
      (fun modmap file => (modulesToCover.filter (·.isLoadedFrom file)).foldl
        (fun modmap m => BaseMap.insert modmap m.m_moduleid file.start) modmap)
      modmap

/-! ### The loop -/

/-- The process ends, or the end of `blocksToCover` is dereferenced, or the function returns
false, or true with the breakpoints. -/
inductive Preparation where
  | exit
  | endDereferenced
  | failed
  | prepared (allBreakpoints : List GDBBreakpoint)
  deriving DecidableEq

/-- `insert` of `std::map`, which is sorted by the address and keeps an entry that is there. -/
def insertBreakpoint (allBreakpoints : List GDBBreakpoint) (bp : GDBBreakpoint) :
    List GDBBreakpoint :=
  if bp.m_absoluteAdress ∈ addresses allBreakpoints then allBreakpoints
  else allBreakpoints.orderedInsert (fun a b => a.m_absoluteAdress ≤ b.m_absoluteAdress) bp

variable (baseMap : BaseMap)

def absAddress (fbb : FluffiBasicBlock) : UInt64 := fbb.m_rva + BaseMap.base baseMap fbb.m_moduleID

/-- What the loop makes of a line while it is at a block. -/
inductive LineResult where
  | exit
  | ignored
  | bytes (originalBytes : UInt32)

def readLine (absAddress : UInt64) (line : Line) : LineResult :=
  match stoull16 line with
  | none => .exit
  | some address =>
    if address = absAddress then
      match line.idxOf? ':' with
      | none => .ignored
      | some pos => match stoull16 (line.drop (pos + 1)) with
        | none => .exit
        | some bytes => .bytes bytes.toUInt32
    else .ignored

/-- The test for the end of the blocks stands behind `insert`, where it never holds. -/
def fillAllBreakpoints : List FluffiBasicBlock → List GDBBreakpoint → List Line → Preparation
  | _, allBreakpoints, [] => .prepared allBreakpoints
  | [], _, _ :: _ => .endDereferenced
  | fbb :: blocks, allBreakpoints, line :: lines =>
    match readLine (absAddress baseMap fbb) line with
    | .exit => .exit
    | .ignored => fillAllBreakpoints (fbb :: blocks) allBreakpoints lines
    | .bytes originalBytes =>
      fillAllBreakpoints blocks
        (insertBreakpoint allBreakpoints ⟨absAddress baseMap fbb, originalBytes, fbb, false⟩) lines

/-- From the answer to the `x/1x` commands on. -/
def readOriginalBytes (blocksToCover : List FluffiBasicBlock) (resp : Line) : Preparation :=
  match fillAllBreakpoints baseMap blocksToCover [] (splitString resp ['\n']) with
  | .prepared allBreakpoints =>
    if allBreakpoints.length ≠ blocksToCover.length then .failed else .prepared allBreakpoints
  | other => other

/-- From the answer to `info files` on. -/
def gdbPrepareForDebug (modulesToCover : List Module) (blocksToCover : List FluffiBasicBlock)
    (infoFilesResp resp : Line) : Preparation :=
  match getBaseAddressesForModules modulesToCover infoFilesResp with
  | none => .exit
  | some baseMap =>
    if baseMap.length ≠ modulesToCover.length then .failed
    else readOriginalBytes baseMap blocksToCover resp

/-! ### The end of the blocks -/

/-- All blocks are answered in their order, and these lines are left. -/
inductive Answered : List FluffiBasicBlock → List Line → List Line → Prop
  | all (rest : List Line) : Answered [] rest rest
  | ignored {fbb : FluffiBasicBlock} {blocks : List FluffiBasicBlock} {line : Line}
      {lines rest : List Line} (hline : readLine (absAddress baseMap fbb) line = .ignored)
      (h : Answered (fbb :: blocks) lines rest) : Answered (fbb :: blocks) (line :: lines) rest
  | answer {fbb : FluffiBasicBlock} {blocks : List FluffiBasicBlock} {line : Line}
      {lines rest : List Line} {bytes : UInt32}
      (hline : readLine (absAddress baseMap fbb) line = .bytes bytes)
      (h : Answered blocks lines rest) : Answered (fbb :: blocks) (line :: lines) rest

variable {baseMap}

theorem fillAllBreakpoints_endDereferenced_iff {blocks : List FluffiBasicBlock}
    {allBreakpoints : List GDBBreakpoint} {lines : List Line} :
    fillAllBreakpoints baseMap blocks allBreakpoints lines = .endDereferenced ↔
      ∃ rest, Answered baseMap blocks lines rest ∧ rest ≠ [] := by
  induction lines generalizing blocks allBreakpoints with
  | nil =>
    simp only [fillAllBreakpoints, reduceCtorEq, false_iff]
    rintro ⟨rest, h, hrest⟩
    cases h
    exact hrest rfl
  | cons line lines ih =>
    cases blocks with
    | nil =>
      simp only [fillAllBreakpoints, true_iff]
      exact ⟨line :: lines, .all _, List.cons_ne_nil _ _⟩
    | cons fbb blocks =>
      rw [fillAllBreakpoints]
      cases hline : readLine (absAddress baseMap fbb) line with
      | exit =>
        simp only [reduceCtorEq, false_iff]
        rintro ⟨rest, h, -⟩
        cases h with
        | ignored hline' => rw [hline] at hline'; cases hline'
        | answer hline' => rw [hline] at hline'; cases hline'
      | ignored =>
        simp only
        rw [ih]
        constructor
        · rintro ⟨rest, h, hrest⟩
          exact ⟨rest, .ignored hline h, hrest⟩
        · rintro ⟨rest, h, hrest⟩
          cases h with
          | ignored _ h => exact ⟨rest, h, hrest⟩
          | answer hline' => rw [hline] at hline'; cases hline'
      | bytes bytes =>
        simp only
        rw [ih]
        constructor
        · rintro ⟨rest, h, hrest⟩
          exact ⟨rest, .answer hline h, hrest⟩
        · rintro ⟨rest, h, hrest⟩
          cases h with
          | ignored hline' => rw [hline] at hline'; cases hline'
          | answer _ h => exact ⟨rest, h, hrest⟩

/-! ### The map -/

/-- The entry of a block: its key, the block, and the bytes of a line for its address. -/
structure EntryOf (baseMap : BaseMap) (lines : List Line) (fbb : FluffiBasicBlock)
    (bp : GDBBreakpoint) : Prop where
  key : bp.m_absoluteAdress = absAddress baseMap fbb
  block : bp.m_fbb = fbb
  printed : ∃ line ∈ lines, readLine (absAddress baseMap fbb) line = .bytes bp.m_originalBytes

theorem EntryOf.mono {lines lines' : List Line} {fbb : FluffiBasicBlock} {bp : GDBBreakpoint}
    (h : EntryOf baseMap lines fbb bp) (hlines : lines ⊆ lines') :
    EntryOf baseMap lines' fbb bp := by
  obtain ⟨line, hline, hread⟩ := h.printed
  exact ⟨h.key, h.block, line, hlines hline, hread⟩

theorem insertBreakpoint_cases (bps : List GDBBreakpoint) (bp : GDBBreakpoint) :
    (bp.m_absoluteAdress ∈ addresses bps ∧ insertBreakpoint bps bp = bps) ∨
      (bp.m_absoluteAdress ∉ addresses bps ∧ (insertBreakpoint bps bp).Perm (bp :: bps)) := by
  by_cases h : bp.m_absoluteAdress ∈ addresses bps
  · exact .inl ⟨h, if_pos h⟩
  · rw [insertBreakpoint, if_neg h]
    exact .inr ⟨h, List.perm_orderedInsert _ _ _⟩

/-- From any map: keys stay distinct, no entry is lost, and there is at most one more for each
block. If there is one more for each block, it is that block's. -/
structure Filled (baseMap : BaseMap) (blocks : List FluffiBasicBlock) (before : List GDBBreakpoint)
    (lines : List Line) (after : List GDBBreakpoint) : Prop where
  nodup : (addresses after).Nodup
  subset : before ⊆ after
  length_le : after.length ≤ before.length + blocks.length
  entries : after.length = before.length + blocks.length →
    ∀ fbb ∈ blocks, ∃ bp ∈ after, EntryOf baseMap lines fbb bp

theorem Filled.of_answer {fbb : FluffiBasicBlock} {blocks : List FluffiBasicBlock}
    {before after : List GDBBreakpoint} {line : Line} {lines : List Line} {bytes : UInt32}
    (hread : readLine (absAddress baseMap fbb) line = .bytes bytes)
    (h : Filled baseMap blocks
      (insertBreakpoint before ⟨absAddress baseMap fbb, bytes, fbb, false⟩) lines after) :
    Filled baseMap (fbb :: blocks) before (line :: lines) after := by
  have hsub := h.subset
  have hlength := h.length_le
  rcases insertBreakpoint_cases before ⟨absAddress baseMap fbb, bytes, fbb, false⟩ with
    ⟨-, heq⟩ | ⟨-, hperm⟩
  · -- the address is already a key: one entry less than blocks for good
    rw [heq] at hsub hlength
    refine ⟨h.nodup, hsub, ?_, fun hall => ?_⟩
    · rw [List.length_cons]
      omega
    · rw [List.length_cons] at hall
      omega
  · have hcount := hperm.length_eq
    rw [List.length_cons] at hcount
    refine ⟨h.nodup, fun bp hbp => hsub (hperm.mem_iff.mpr (.tail _ hbp)), ?_, fun hall => ?_⟩
    · rw [List.length_cons]
      omega
    · rw [List.length_cons] at hall
      intro fbb' hfbb'
      rcases List.mem_cons.mp hfbb' with rfl | hfbb'
      · exact ⟨_, hsub (hperm.mem_iff.mpr (.head _)), rfl, rfl, line, .head _, hread⟩
      · obtain ⟨bp, hbp, hentry⟩ := h.entries (by omega) fbb' hfbb'
        exact ⟨bp, hbp, hentry.mono (List.subset_cons_self _ _)⟩

theorem nodup_insertBreakpoint {bps : List GDBBreakpoint} (h : (addresses bps).Nodup)
    (bp : GDBBreakpoint) : (addresses (insertBreakpoint bps bp)).Nodup := by
  rcases insertBreakpoint_cases bps bp with ⟨-, heq⟩ | ⟨hnew, hperm⟩
  · rwa [heq]
  · have hmap : (addresses (insertBreakpoint bps bp)).Perm (addresses (bp :: bps)) := hperm.map _
    rw [hmap.nodup_iff]
    exact List.nodup_cons.mpr ⟨hnew, h⟩

theorem fillAllBreakpoints_prepared {blocks : List FluffiBasicBlock}
    {before after : List GDBBreakpoint} {lines : List Line} (hbefore : (addresses before).Nodup)
    (h : fillAllBreakpoints baseMap blocks before lines = .prepared after) :
    Filled baseMap blocks before lines after := by
  induction lines generalizing blocks before with
  | nil =>
    simp only [fillAllBreakpoints, Preparation.prepared.injEq] at h
    subst h
    refine ⟨hbefore, List.Subset.refl _, by omega, fun hall fbb hfbb => ?_⟩
    have := List.length_pos_of_mem hfbb
    omega
  | cons line lines ih =>
    cases blocks with
    | nil => simp [fillAllBreakpoints] at h
    | cons fbb blocks =>
      rw [fillAllBreakpoints] at h
      cases hline : readLine (absAddress baseMap fbb) line with
      | exit => simp [hline] at h
      | ignored =>
        simp only [hline] at h
        have hfilled := ih hbefore h
        refine ⟨hfilled.nodup, hfilled.subset, hfilled.length_le, fun hall fbb' hfbb' => ?_⟩
        obtain ⟨bp, hbp, hentry⟩ := hfilled.entries hall fbb' hfbb'
        exact ⟨bp, hbp, hentry.mono (List.subset_cons_self _ _)⟩
      | bytes bytes =>
        simp only [hline] at h
        exact .of_answer hline (ih (nodup_insertBreakpoint hbefore _) h)

theorem filter_address {bps : List GDBBreakpoint} (hbps : (addresses bps).Nodup)
    {bp : GDBBreakpoint} (hbp : bp ∈ bps) :
    bps.filter (·.m_absoluteAdress = bp.m_absoluteAdress) = [bp] := by
  induction bps with
  | nil => cases hbp
  | cons b bps ih =>
    obtain ⟨hb, hnodup⟩ := List.nodup_cons.mp hbps
    rcases List.mem_cons.mp hbp with rfl | hbp
    · rw [List.filter_cons_of_pos (by simp), List.cons.injEq, List.filter_eq_nil_iff]
      refine ⟨rfl, fun c hc heq => hb ?_⟩
      rw [← of_decide_eq_true heq]
      exact List.mem_map_of_mem hc
    · have hne : b.m_absoluteAdress ≠ bp.m_absoluteAdress := by
        intro heq
        rw [heq] at hb
        exact hb (List.mem_map_of_mem hbp)
      rw [List.filter_cons_of_neg (by simpa using hne), ih hnodup hbp]

/-- Each block has exactly one entry under its address. -/
def Complete (baseMap : BaseMap) (blocks : List FluffiBasicBlock) (resp : Line)
    (allBreakpoints : List GDBBreakpoint) : Prop :=
  ∀ fbb ∈ blocks, ∃ bp, EntryOf baseMap (splitString resp ['\n']) fbb bp ∧
    allBreakpoints.filter (·.m_absoluteAdress = absAddress baseMap fbb) = [bp]

theorem readOriginalBytes_complete {blocks : List FluffiBasicBlock} {resp : Line}
    {allBreakpoints : List GDBBreakpoint}
    (h : readOriginalBytes baseMap blocks resp = .prepared allBreakpoints) :
    Complete baseMap blocks resp allBreakpoints := by
  unfold readOriginalBytes at h
  cases hfill : fillAllBreakpoints baseMap blocks [] (splitString resp ['\n']) with
  | prepared after =>
    simp only [hfill] at h
    split at h
    · cases h
    case isFalse hlength =>
      cases h
      have hfilled := fillAllBreakpoints_prepared (by simp [addresses]) hfill
      intro fbb hfbb
      obtain ⟨bp, hbp, hentry⟩ := hfilled.entries (by simpa using hlength) fbb hfbb
      refine ⟨bp, hentry, ?_⟩
      rw [← hentry.key]
      exact filter_address hfilled.nodup hbp
  | exit => simp [hfill] at h
  | endDereferenced => simp [hfill] at h
  | failed => simp [hfill] at h

theorem readOriginalBytes_endDereferenced_iff {blocks : List FluffiBasicBlock} {resp : Line} :
    readOriginalBytes baseMap blocks resp = .endDereferenced ↔
      ∃ rest, Answered baseMap blocks (splitString resp ['\n']) rest ∧ rest ≠ [] := by
  have hfill : fillAllBreakpoints baseMap blocks [] (splitString resp ['\n']) =
      .endDereferenced ↔ ∃ rest, Answered baseMap blocks (splitString resp ['\n']) rest ∧
        rest ≠ [] :=
    fillAllBreakpoints_endDereferenced_iff
  rw [← hfill, readOriginalBytes]
  split
  · rename_i after hfill
    rw [hfill]
    split <;> simp
  · rfl

/-- For all blocks, bases and answers: the end is not dereferenced and the map is complete if
`true` is returned, exactly if no line is left once all blocks are answered. -/
theorem readOriginalBytes_iff (baseMap : BaseMap) (blocks : List FluffiBasicBlock) (resp : Line) :
    (readOriginalBytes baseMap blocks resp ≠ .endDereferenced ∧
      ∀ allBreakpoints, readOriginalBytes baseMap blocks resp = .prepared allBreakpoints →
        Complete baseMap blocks resp allBreakpoints) ↔
      ∀ rest, Answered baseMap blocks (splitString resp ['\n']) rest → rest = [] := by
  rw [ne_eq, readOriginalBytes_endDereferenced_iff]
  constructor
  · rintro ⟨hend, -⟩ rest hanswered
    by_contra hrest
    exact hend ⟨rest, hanswered, hrest⟩
  · intro h
    refine ⟨?_, fun _ => readOriginalBytes_complete⟩
    rintro ⟨rest, hanswered, hrest⟩
    exact hrest (h rest hanswered)

theorem gdbPrepareForDebug_complete {modules : List Module} {blocks : List FluffiBasicBlock}
    {infoFilesResp resp : Line} {allBreakpoints : List GDBBreakpoint}
    (h : gdbPrepareForDebug modules blocks infoFilesResp resp = .prepared allBreakpoints) :
    ∃ baseMap, getBaseAddressesForModules modules infoFilesResp = some baseMap ∧
      Complete baseMap blocks resp allBreakpoints := by
  unfold gdbPrepareForDebug at h
  split at h
  · cases h
  case h_2 baseMap hbase =>
    split at h
    · cases h
    · exact ⟨baseMap, hbase, readOriginalBytes_complete h⟩

/-- Without blocks there is always a line too many. -/
theorem not_all_answered_nil (resp : Line) :
    ¬ ∀ rest, Answered baseMap [] (splitString resp ['\n']) rest → rest = [] := by
  intro h
  exact splitString_ne_nil resp ['\n'] (h _ (.all _))

/-- One block whose bytes are printed, and one more line. -/
theorem readOriginalBytes_lineBehind :
    readOriginalBytes [(1, 0x400000)] [⟨1, 0x10⟩]
        "0x400010 <f>:\t0x55\n0x0".toList = .endDereferenced ∧
      readOriginalBytes [(1, 0x400000)] [] "".toList = .endDereferenced ∧
      readOriginalBytes [(1, 0x400000)] [⟨1, 0x10⟩] "0x400010 <f>:\t0x55".toList =
        .prepared [⟨0x400010, 0x55, ⟨1, 0x10⟩, false⟩] := by
  refine ⟨by decide, by decide, by decide⟩

end Fluffi.Runner.Gdb
