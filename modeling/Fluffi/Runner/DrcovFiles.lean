import Fluffi.Runner.DrcovBlocks

/-! Files that drcov writes, and what the parser makes of any bytes in their place. It stays in
its input exactly if a zero byte ends the text and, behind a header that is accepted, the number
of blocks is there and a table that passes the check is in the input. -/

namespace Fluffi.Runner.Drcov

open Shared Systems LineStream
open Gdb (Line Module)

/-- `std::vector<char>`, which has no more elements than a `ptrdiff_t` can count. -/
structure CharVector where
  bytes : Bytes
  length_lt : bytes.length < 2 ^ 63

def charsOf (bytes : Bytes) : List Char := bytes.map fun b => Char.ofNat b.toNat

/-- The bytes before the first zero byte. -/
def headerText (input : Bytes) : List Char := charsOf (input.takeWhile (· ≠ 0))

/-- `std::string(&(*input)[0])`, which goes on behind the input if there is no zero byte. -/
def readString (input : Bytes) : Except Stop (List Char) :=
  if 0 ∈ input then .ok (headerText input) else .error .outside

/-- The size check, in which all numbers are of 64 bits without a sign. -/
def passesCheck (input : Bytes) (tellg : ℤ) (numbbs : UInt64) : Bool :=
  Deadlines.toUnsigned 64 (tellg + 12 * numbbs.toNat) ≤ input.length

def copyCoveredModulesToDebugExecutionOutput (input : CharVector) (modulesToCover : List Module)
    (covered : List FluffiBasicBlock) : Except Stop (List FluffiBasicBlock) := do
  let m_header ← readString input.bytes
  let header ← readHeader modulesToCover m_header
  if passesCheck input.bytes header.tellg header.numbbs then
    blockLoop input.bytes header.traceModIDToFluffiModID header.numbbs.toNat header.tellg covered
  else .error .exit

/-! ### Files -/

/-- A version 2 file: what is in its header, and the entries of its table. -/
structure DrcovFile where
  flavor : Line
  tableVersion : ℕ
  columns : Line
  modules : List Line
  entries : List BBEntry
  flavor_mem : flavor ∈ flavors
  columns_mem : columns ∈ columnLines
  /-- The number of modules is an `int`, as their ids are. -/
  modules_lt : modules.length < 2 ^ 31
  moduleLine : ∀ line ∈ modules, ModuleLine line
  oneLine : ∀ line ∈ modules, '\n' ∉ line ∧ '\x00' ∉ line

namespace DrcovFile

variable (file : DrcovFile)

def countLine : Line :=
  "Module Table: version ".toList ++ Nat.toDigits 10 file.tableVersion ++ ", count ".toList ++
    Nat.toDigits 10 file.modules.length

def bbTableLine : Line :=
  "BB Table: ".toList ++ Nat.toDigits 10 file.entries.length ++ " bbs".toList

def lines : List Line :=
  ["DRCOV VERSION: 2".toList, file.flavor, file.countLine, file.columns] ++ file.modules ++
    [file.bbTableLine]

def header : List Char := joined '\n' file.lines

def table : Bytes := file.entries.flatMap BBEntry.encode

/-- The bytes of the file. -/
def WrittenAs (input : Bytes) : Prop :=
  ∃ header, charsOf header = file.header ∧ input = header ++ file.table

/-- The blocks that the file says were hit, in modules that are to be covered. -/
def coveredBlocks (modulesToCover : List Module) : List FluffiBasicBlock :=
  file.entries.filterMap (coveredBlock (fluffiModID modulesToCover file.modules))

end DrcovFile

/-! ### What the parser should do, and when it does -/

/-- Nothing else than the input is read, and of a version 2 file exactly its blocks are added. -/
def ReadsRight (input : CharVector) (modulesToCover : List Module)
    (covered : List FluffiBasicBlock) : Prop :=
  copyCoveredModulesToDebugExecutionOutput input modulesToCover covered ≠ .error .outside ∧
    ∀ file : DrcovFile, file.WrittenAs input.bytes →
      copyCoveredModulesToDebugExecutionOutput input modulesToCover covered =
        .ok (covered ++ file.coveredBlocks modulesToCover)

/-- If the header is accepted, the number of blocks is there, and no more of the table is read
than there is. -/
def StaysInInput (input : Bytes) (modulesToCover : List Module) : Prop :=
  let lines := (headerText input).splitOn '\n'
  ∀ num_mods, Accepted lines num_mods →
    ∃ token, ((basicblockLine lines num_mods).splitOn ' ')[2]? = some token ∧
      ∀ numbbs, stoll token = some numbbs →
        passesCheck input (tableBegin lines num_mods) (UInt64.ofInt numbbs) = true →
          TableInInput input (fluffiModID modulesToCover (moduleLines lines num_mods))
            (UInt64.ofInt numbbs).toNat (tableBegin lines num_mods)

/-- The cast of the position to an `int` does no harm to a file with a header of two gigabytes
or more: the check is passed, and the entries at the other place make the same blocks. -/
def CastIsHarmless (input : Bytes) (modulesToCover : List Module) : Prop :=
  ∀ file : DrcovFile, file.WrittenAs input → 2 ^ 31 ≤ file.header.length →
    passesCheck input (Deadlines.toSigned 32 file.header.length)
        (UInt64.ofNat file.entries.length) = true ∧
      (entriesAt input file.entries.length (Deadlines.toSigned 32 file.header.length)).filterMap
          (coveredBlock (fluffiModID modulesToCover file.modules)) =
        file.coveredBlocks modulesToCover

variable {input : CharVector} {modulesToCover : List Module} {covered : List FluffiBasicBlock}

/-! ### What stays in the input -/

theorem copy_of_notMem_zero (h : 0 ∉ input.bytes) :
    copyCoveredModulesToDebugExecutionOutput input modulesToCover covered = .error .outside := by
  rw [copyCoveredModulesToDebugExecutionOutput, readString, if_neg h]
  rfl

section Zero

variable (hzero : 0 ∈ input.bytes)
include hzero

theorem copy_rejected
    (h : ∀ num_mods, ¬ Accepted ((headerText input.bytes).splitOn '\n') num_mods) :
    ∃ stop ≠ Stop.outside,
      copyCoveredModulesToDebugExecutionOutput input modulesToCover covered = .error stop := by
  obtain ⟨stop, hstop, heq⟩ := @readHeader_rejected modulesToCover _ h
  refine ⟨stop, hstop, ?_⟩
  rw [copyCoveredModulesToDebugExecutionOutput, readString, if_pos hzero]
  simp only [bind, Except.bind, heq]

theorem copy_accepted {num_mods : ℤ}
    (h : Accepted ((headerText input.bytes).splitOn '\n') num_mods) :
    copyCoveredModulesToDebugExecutionOutput input modulesToCover covered =
      (readNumbbs (basicblockLine ((headerText input.bytes).splitOn '\n') num_mods)).bind
        fun numbbs =>
          if passesCheck input.bytes (tableBegin ((headerText input.bytes).splitOn '\n') num_mods)
              numbbs then
            blockLoop input.bytes
              (insertModules modulesToCover (fun _ => none)
                (moduleLines ((headerText input.bytes).splitOn '\n') num_mods))
              numbbs.toNat (tableBegin ((headerText input.bytes).splitOn '\n') num_mods) covered
          else .error .exit := by
  rw [copyCoveredModulesToDebugExecutionOutput, readString, if_pos hzero]
  simp only [bind, Except.bind, readHeader_accepted h]
  cases readNumbbs (basicblockLine ((headerText input.bytes).splitOn '\n') num_mods) with
  | error stop => rfl
  | ok numbbs => rfl

end Zero

theorem readNumbbs_eq (line : Line) :
    readNumbbs line =
      (line.splitOn ' ')[2]?.elim (.error .outside) fun token =>
        (stoll token).elim (.error .exit) fun numbbs => .ok (UInt64.ofInt numbbs) := by
  have hsplit : splitString line " ".toList = line.splitOn ' ' := splitString_singleton line ' '
  rw [readNumbbs, hsplit]
  cases (line.splitOn ' ')[2]? with
  | none => rfl
  | some token =>
    rw [Option.elim_some]
    cases hnumbbs : stoll token with
    | none => simp [hnumbbs]
    | some numbbs => simp [hnumbbs]

theorem Accepted.first {num_mods : ℤ}
    (h : Accepted ((headerText input.bytes).splitOn '\n') num_mods) :
    ∀ b ∈ input.bytes.take 8, b ≠ 0 := by
  have hversion := h.version
  obtain ⟨line, lines, hlines⟩ :=
    List.exists_cons_of_ne_nil (List.splitOn_ne_nil '\n' (headerText input.bytes))
  have htext := @List.intercalate_splitOn _ (headerText input.bytes) _ _ '\n'
  rw [hlines] at hversion htext
  obtain rfl : line = "DRCOV VERSION: 2".toList := hversion
  have hlength : 16 ≤ (input.bytes.takeWhile (· ≠ 0)).length := by
    have hheader : (headerText input.bytes).length = (input.bytes.takeWhile (· ≠ 0)).length := by
      rw [headerText, charsOf, List.length_map]
    have hcut := congrArg List.length
      (@cut_intercalate _ _ '\n' "DRCOV VERSION: 2".toList (by decide) lines).1
    rw [htext] at hcut
    have hle := (List.takeWhile_prefix (· ≠ '\n') (l := headerText input.bytes)).length_le
    rw [hcut, hheader] at hle
    exact hle
  intro b hb
  have htake := List.prefix_iff_eq_take.mp (List.takeWhile_prefix (· ≠ 0) (l := input.bytes))
  have hmem : b ∈ input.bytes.takeWhile (· ≠ 0) := by
    rw [htake]
    exact (List.take_subset_take_left _ (by omega)) hb
  simpa using List.mem_takeWhile_imp hmem

theorem blockLoop_stays_iff {num_mods : ℤ} {numbbs : ℕ} {pos : ℤ}
    (h : Accepted ((headerText input.bytes).splitOn '\n') num_mods) :
    blockLoop input.bytes
        (insertModules modulesToCover (fun _ => none)
          (moduleLines ((headerText input.bytes).splitOn '\n') num_mods))
        numbbs pos covered ≠ .error .outside ↔
      TableInInput input.bytes
        (fluffiModID modulesToCover (moduleLines ((headerText input.bytes).splitOn '\n') num_mods))
        numbbs pos := by
  have hmap := @insertModules_lookup modulesToCover _ h.modules
  constructor
  · exact tableInInput_of_blockLoop hmap h.first
  · intro htable
    rw [blockLoop_inInput hmap htable]
    intro hout
    cases hout

theorem stays_iff (hzero : 0 ∈ input.bytes) :
    copyCoveredModulesToDebugExecutionOutput input modulesToCover covered ≠ .error .outside ↔
      StaysInInput input.bytes modulesToCover := by
  by_cases hacc : ∃ num_mods, Accepted ((headerText input.bytes).splitOn '\n') num_mods
  · obtain ⟨num_mods, h⟩ := hacc
    have hclause : StaysInInput input.bytes modulesToCover ↔ _ :=
      ⟨fun hstays => hstays num_mods h, fun hclause n hn => by
        obtain rfl := h.unique hn
        exact hclause⟩
    rw [hclause, copy_accepted hzero h, readNumbbs_eq]
    cases htoken : ((basicblockLine ((headerText input.bytes).splitOn '\n') num_mods).splitOn
        ' ')[2]? with
    | none => simp [Except.bind]
    | some token =>
      cases hnumbbs : stoll token with
      | none => simp [Except.bind, hnumbbs]
      | some numbbs =>
        simp only [Except.bind, hnumbbs, Option.elim_some, Option.some.injEq, exists_eq_left',
          forall_eq']
        split
        next hpasses =>
          rw [blockLoop_stays_iff h]
          exact ⟨fun htable _ => htable, fun htable => htable hpasses⟩
        next hfails => exact iff_of_true (by simp) fun hpasses => absurd hpasses hfails
  · have hnone := not_exists.mp hacc
    obtain ⟨stop, hstop, heq⟩ := @copy_rejected _ modulesToCover covered hzero hnone
    rw [heq]
    exact iff_of_true (fun h => hstop (Except.error.inj h)) fun n hn => absurd hn (hnone n)

/-! ### What is read of a version 2 file -/

theorem notMem_toDigits {c : Char} (hc : c.isDigit = false) (n : ℕ) : c ∉ Nat.toDigits 10 n := by
  intro h
  rw [Nat.isDigit_of_mem_toDigits (by decide) (by decide) h] at hc
  cases hc

namespace DrcovFile

variable (file : DrcovFile)

theorem lines_length : file.lines.length = 5 + file.modules.length := by
  simp only [lines, List.length_append, List.length_cons, List.length_nil]
  omega

theorem notMem_countLine {c : Char} (hc : c.isDigit = false)
    (hversion : c ∉ "Module Table: version ".toList) (hcount : c ∉ ", count ".toList) :
    c ∉ file.countLine := by
  unfold countLine
  simp only [List.mem_append, not_or]
  exact ⟨⟨⟨hversion, notMem_toDigits hc _⟩, hcount⟩, notMem_toDigits hc _⟩

theorem notMem_bbTableLine {c : Char} (hc : c.isDigit = false)
    (htable : c ∉ "BB Table: ".toList) (hbbs : c ∉ " bbs".toList) : c ∉ file.bbTableLine := by
  unfold bbTableLine
  simp only [List.mem_append, not_or]
  exact ⟨⟨htable, notMem_toDigits hc _⟩, hbbs⟩

theorem flavors_oneLine : ∀ line ∈ flavors, '\n' ∉ line ∧ '\x00' ∉ line := by
  decide

theorem columnLines_oneLine : ∀ line ∈ columnLines, '\n' ∉ line ∧ '\x00' ∉ line := by
  decide

/-- Each of the lines is a line, and a part of a C string. -/
theorem lines_oneLine : ∀ line ∈ file.lines, '\n' ∉ line ∧ '\x00' ∉ line := by
  intro line hline
  simp only [lines, List.mem_append, List.mem_cons, List.not_mem_nil, or_false] at hline
  rcases hline with ((rfl | rfl | rfl | rfl) | hmodule) | rfl
  · decide
  · exact flavors_oneLine _ file.flavor_mem
  · exact ⟨file.notMem_countLine rfl (by decide) (by decide),
      file.notMem_countLine rfl (by decide) (by decide)⟩
  · exact columnLines_oneLine _ file.columns_mem
  · exact file.oneLine _ hmodule
  · exact ⟨file.notMem_bbTableLine rfl (by decide) (by decide),
      file.notMem_bbTableLine rfl (by decide) (by decide)⟩

theorem moduleLines_eq (rest : List Line) :
    moduleLines (file.lines ++ rest) file.modules.length = file.modules := by
  apply List.ext_getElem
  · simp [moduleLines]
  · intro i _ hi
    have hlt : 4 + i < file.lines.length := by
      rw [file.lines_length]
      omega
    have hline : file.lines[4 + i] = file.modules[i] := by
      simp only [lines]
      rw [List.getElem_append_left (by simp; omega), List.getElem_append_right (by simp)]
      simp
    simp only [moduleLines, List.getElem_map, List.getElem_range', Nat.one_mul]
    rw [lineAt_append hlt, hline]

theorem findFirst_countLine :
    findFirst "count ".toList file.countLine =
      some ("count ".toList ++ Nat.toDigits 10 file.modules.length) := by
  have hpre : 'c' ∉ "Module Table: version ".toList ++ Nat.toDigits 10 file.tableVersion ++
      ", ".toList := by
    simp only [List.mem_append, not_or]
    exact ⟨⟨by decide, notMem_toDigits rfl _⟩, by decide⟩
  have hline : file.countLine =
      ("Module Table: version ".toList ++ Nat.toDigits 10 file.tableVersion ++ ", ".toList) ++
        ("count ".toList ++ Nat.toDigits 10 file.modules.length) := by
    unfold countLine
    rw [show ", count ".toList = ", ".toList ++ "count ".toList from rfl]
    simp only [List.append_assoc]
  rw [hline, show "count ".toList = 'c' :: "ount ".toList from rfl,
    findFirst_append_of_notMem hpre]
  exact findFirst_of_isPrefixOf (List.prefix_append _ _)

theorem accepted (rest : List Line) : Accepted (file.lines ++ rest) file.modules.length where
  version := lineAt_append (by rw [lines_length]; omega)
  flavor := by
    have hline : lineAt (file.lines ++ rest) 1 = file.flavor :=
      lineAt_append (by rw [lines_length]; omega)
    rw [hline]
    exact file.flavor_mem
  count := by
    have hline : lineAt (file.lines ++ rest) 2 = file.countLine :=
      lineAt_append (by rw [lines_length]; omega)
    refine ⟨_, hline ▸ file.findFirst_countLine, ?_⟩
    rw [List.drop_left' (by rfl), stoi_toDigits file.modules_lt]
  columns := by
    have hline : lineAt (file.lines ++ rest) 3 = file.columns :=
      lineAt_append (by rw [lines_length]; omega)
    rw [hline]
    exact file.columns_mem
  modules := by
    rw [moduleLines_eq]
    exact file.moduleLine

theorem basicblockLine_eq (rest : List Line) :
    basicblockLine (file.lines ++ rest) file.modules.length = file.bbTableLine := by
  have hlt : 4 + file.modules.length < file.lines.length := by
    rw [lines_length]
    omega
  have hlast : 4 + file.modules.length =
      (["DRCOV VERSION: 2".toList, file.flavor, file.countLine, file.columns] ++
        file.modules).length := by
    simp only [List.length_append, List.length_cons, List.length_nil]
  rw [basicblockLine, Int.toNat_natCast, List.getElem?_append_left hlt, lines, hlast,
    List.getElem?_concat_length]
  rfl

theorem splitOn_bbTableLine :
    file.bbTableLine.splitOn ' ' =
      ["BB".toList, "Table:".toList, Nat.toDigits 10 file.entries.length, "bbs".toList] := by
  have hline : file.bbTableLine =
      "BB".toList ++ ' ' :: ("Table:".toList ++
        ' ' :: (Nat.toDigits 10 file.entries.length ++ ' ' :: "bbs".toList)) := by
    unfold bbTableLine
    rw [show "BB Table: ".toList = "BB".toList ++ ' ' :: ("Table:".toList ++ [' ']) from rfl,
      show " bbs".toList = ' ' :: "bbs".toList from rfl]
    simp only [List.append_assoc, List.cons_append, List.nil_append]
  rw [hline, List.splitOn_append_cons_self_of_not_mem (by decide),
    List.splitOn_append_cons_self_of_not_mem (by decide),
    List.splitOn_append_cons_self_of_not_mem (notMem_toDigits rfl _),
    List.splitOn_eq_singleton (by decide)]

theorem tableBegin_eq {rest : List Line} (hrest : rest ≠ []) :
    tableBegin (file.lines ++ rest) file.modules.length =
      Deadlines.toSigned 32 file.header.length := by
  have hpos : 0 < rest.length := List.length_pos_iff.mpr hrest
  have hlt : 5 + file.modules.length < (file.lines ++ rest).length := by
    rw [List.length_append, lines_length]
    omega
  rw [tableBegin, Int.toNat_natCast, if_pos hlt, List.take_left' file.lines_length, header]

theorem header_noZero : '\x00' ∉ file.header := by
  intro hmem
  obtain ⟨line, hline, hzero⟩ := List.mem_flatMap.mp hmem
  rcases List.mem_append.mp hzero with hzero | hzero
  · exact (file.lines_oneLine line hline).2 hzero
  · exact absurd (List.mem_singleton.mp hzero) (by decide)

/-- The file as bytes: its header has no zero byte, and its table follows. -/
theorem WrittenAs.cut {file : DrcovFile} {bytes : Bytes} (h : file.WrittenAs bytes) :
    ∃ header : Bytes, header.length = file.header.length ∧ bytes = header ++ file.table ∧
      headerText bytes = file.header ++ charsOf (file.table.takeWhile (· ≠ 0)) := by
  obtain ⟨header, hheader, rfl⟩ := h
  have hne : ∀ b ∈ header, decide (b ≠ 0) = true := by
    intro b hb
    rw [decide_eq_true_eq]
    rintro rfl
    refine file.header_noZero ?_
    rw [← hheader]
    exact List.mem_map.mpr ⟨0, hb, rfl⟩
  refine ⟨header, ?_, rfl, ?_⟩
  · rw [← hheader, charsOf, List.length_map]
  · rw [headerText, List.takeWhile_append_of_pos hne, charsOf, List.map_append, ← charsOf, hheader,
      ← charsOf]

theorem WrittenAs.lines {file : DrcovFile} {bytes : Bytes} (h : file.WrittenAs bytes) :
    ∃ rest ≠ [], (headerText bytes).splitOn '\n' = file.lines ++ rest := by
  obtain ⟨header, -, -, htext⟩ := h.cut
  refine ⟨_, List.splitOn_ne_nil '\n' (charsOf (file.table.takeWhile (· ≠ 0))), ?_⟩
  rw [htext, DrcovFile.header,
    splitOn_joined_append fun line hline => (file.lines_oneLine line hline).1]

theorem WrittenAs.accepted {file : DrcovFile} {bytes : Bytes} (h : file.WrittenAs bytes) :
    Accepted ((headerText bytes).splitOn '\n') file.modules.length := by
  obtain ⟨rest, -, hlines⟩ := h.lines
  rw [hlines]
  exact file.accepted rest

theorem table_length : file.table.length = 12 * file.entries.length := by
  rw [table, List.length_flatMap]
  simp [Nat.mul_comm]

theorem WrittenAs.length {file : DrcovFile} {bytes : Bytes} (h : file.WrittenAs bytes) :
    bytes.length = file.header.length + 12 * file.entries.length := by
  obtain ⟨header, hlength, rfl, -⟩ := h.cut
  rw [List.length_append, hlength, table_length]

theorem WrittenAs.entriesAt {file : DrcovFile} {bytes : Bytes} (h : file.WrittenAs bytes) :
    entriesAt bytes file.entries.length file.header.length = file.entries := by
  obtain ⟨header, hlength, rfl, -⟩ := h.cut
  have hentries := entriesAt_encode header [] file.entries
  rw [List.append_nil, hlength] at hentries
  exact hentries

end DrcovFile

open DrcovFile

theorem toNat_numbbs {file : DrcovFile} (h : file.WrittenAs input.bytes) :
    (UInt64.ofNat file.entries.length).toNat = file.entries.length := by
  have hlt := input.length_lt
  rw [h.length] at hlt
  exact UInt64.toNat_ofNat_of_lt (by rw [UInt64.size]; omega)

theorem copy_file {file : DrcovFile} (h : file.WrittenAs input.bytes) (hzero : 0 ∈ input.bytes) :
    copyCoveredModulesToDebugExecutionOutput input modulesToCover covered =
      if passesCheck input.bytes (Deadlines.toSigned 32 file.header.length)
          (UInt64.ofNat file.entries.length) then
        blockLoop input.bytes (insertModules modulesToCover (fun _ => none) file.modules)
          file.entries.length (Deadlines.toSigned 32 file.header.length) covered
      else .error .exit := by
  obtain ⟨rest, hrest, hlines⟩ := h.lines
  have hlt := input.length_lt
  rw [h.length] at hlt
  have hnumbbs : stoll (Nat.toDigits 10 file.entries.length) = some (file.entries.length : ℤ) :=
    stoll_toDigits (by omega)
  have hofInt : UInt64.ofInt (file.entries.length : ℤ) = UInt64.ofNat file.entries.length := by
    rw [UInt64.ofInt, Int.emod_eq_of_lt (by omega) (by omega), Int.toNat_natCast]
  rw [copy_accepted hzero h.accepted, hlines, readNumbbs_eq, basicblockLine_eq, splitOn_bbTableLine,
    moduleLines_eq, tableBegin_eq _ hrest]
  simp only [List.getElem?_cons_succ, List.getElem?_cons_zero, hnumbbs, Option.elim_some,
    Except.bind, hofInt, toNat_numbbs h]

/-- Below two gigabytes, the cast leaves the position as it is, and the table fits exactly. -/
theorem passesCheck_file {file : DrcovFile} (h : file.WrittenAs input.bytes)
    (hshort : file.header.length < 2 ^ 31) :
    Deadlines.toSigned 32 (file.header.length : ℤ) = file.header.length ∧
      passesCheck input.bytes (file.header.length : ℤ) (UInt64.ofNat file.entries.length) =
        true := by
  have hlt := input.length_lt
  have hlength := h.length
  have hsigned := @Deadlines.toSigned_of_lt 31 (file.header.length : ℤ) (by omega) (by omega)
  refine ⟨hsigned, ?_⟩
  rw [passesCheck, toNat_numbbs h, Deadlines.toUnsigned_of_lt (by omega) (by omega),
    decide_eq_true_eq, hlength]
  push_cast
  exact le_rfl

/-- From any position: if the loop stays in the input, it makes blocks of the entries there. -/
theorem blockLoop_file {file : DrcovFile} (h : file.WrittenAs input.bytes) {pos : ℤ}
    (hstays : blockLoop input.bytes (insertModules modulesToCover (fun _ => none) file.modules)
      file.entries.length pos covered ≠ .error .outside) :
    blockLoop input.bytes (insertModules modulesToCover (fun _ => none) file.modules)
        file.entries.length pos covered =
      .ok (covered ++ (entriesAt input.bytes file.entries.length pos).filterMap
        (coveredBlock (fluffiModID modulesToCover file.modules))) := by
  have hmap := @insertModules_lookup modulesToCover _ file.moduleLine
  exact blockLoop_inInput hmap (tableInInput_of_blockLoop hmap h.accepted.first hstays)

/-- The parser is right exactly if there is a zero byte, no more of the table is read than
there is, and the cast of the header's length does no harm. -/
theorem readsRight_iff (input : CharVector) (modulesToCover : List Module)
    (covered : List FluffiBasicBlock) :
    ReadsRight input modulesToCover covered ↔
      0 ∈ input.bytes ∧ StaysInInput input.bytes modulesToCover ∧
        CastIsHarmless input.bytes modulesToCover := by
  constructor
  · rintro ⟨hstays, hfiles⟩
    have hzero : 0 ∈ input.bytes := by
      by_contra hnone
      exact hstays (copy_of_notMem_zero hnone)
    refine ⟨hzero, (stays_iff hzero).mp hstays, fun file hfile _ => ?_⟩
    have hright := hfiles file hfile
    rw [copy_file hfile hzero] at hright hstays
    split at hright
    next hpasses =>
      rw [if_pos hpasses] at hstays
      rw [blockLoop_file hfile hstays] at hright
      exact ⟨hpasses, List.append_cancel_left (Except.ok.inj hright)⟩
    next => cases hright
  · rintro ⟨hzero, hstays, hcast⟩
    have hstays := (@stays_iff _ _ covered hzero).mpr hstays
    refine ⟨hstays, fun file hfile => ?_⟩
    rw [copy_file hfile hzero] at hstays ⊢
    rcases Nat.lt_or_ge file.header.length (2 ^ 31) with hshort | hlong
    · obtain ⟨hsigned, hpasses⟩ := passesCheck_file hfile hshort
      rw [hsigned, if_pos hpasses] at hstays ⊢
      rw [blockLoop_file hfile hstays, hfile.entriesAt, coveredBlocks]
    · obtain ⟨hpasses, hsame⟩ := hcast file hfile hlong
      rw [if_pos hpasses] at hstays ⊢
      rw [blockLoop_file hfile hstays, hsame]

/-- The bytes of a text. -/
def bytesOfText (text : List Char) : Bytes := text.map fun c => UInt8.ofNat c.toNat

/-- A negative number of blocks passes the check, and the table is read beyond the input. -/
theorem negative_number_reads_beyond :
    ¬ ReadsRight
      ⟨bytesOfText (joined '\n'
          ["DRCOV VERSION: 2".toList, "DRCOV FLAVOR: drcov".toList,
            "Module Table: version 4, count 0".toList,
            "Columns: id, containing_id, start, end, entry, offset, path".toList,
            "BB Table: -1 bbs".toList]) ++ [0],
        by simp [bytesOfText, joined]⟩ [] [] := by
  rintro ⟨hstays, -⟩
  exact hstays (by decide +kernel)

end Fluffi.Runner.Drcov
