import Fluffi.Runner.OriginalBytes
import Fluffi.Shared.Strings
import Fluffi.Shared.Paths
import Fluffi.Systems.LineStreams
import Fluffi.Systems.Deadlines

/-! The header of a drcov file, as `copyCoveredModulesToDebugExecutionOutput` reads it. The
whole buffer is taken for a text, so the header ends at the first zero byte; the number of
blocks and the position of the table come from that text. -/

namespace Fluffi.Runner.Drcov

open Shared Systems LineStream
open Gdb (Line Module)

/-- Why there are no blocks. -/
inductive Stop where
  /-- What is read is not in the buffer that it is read from. -/
  | outside
  | exit
  | returns
  deriving DecidableEq

/-! ### Modules -/

/-- What `strcasecmp` sees of a string. -/
def lowered (str : Line) : Line := (str.takeWhile (· ≠ '\x00')).map Char.toLower

/-- The module is in this file, given by its directory and its name. -/
def isTraced (m : Module) (directoryAndFilename : Line × Line) : Bool :=
  lowered m.m_modulename == lowered directoryAndFilename.2 &&
    (m.m_modulepath == "*".toList || lowered m.m_modulepath == lowered directoryAndFilename.1)

/-- `std::map<uint32_t, uint32_t>` -/
abbrev ModuleMap := UInt32 → Option UInt32

def tokens (line : Line) : List Line := splitString line ",".toList

def moduleid (line : Line) : Option ℤ := stoi ((tokens line).headD [])

variable (modulesToCover : List Module)

/-- The first module that is in the file of the line. -/
def tracedModule (line : Line) : Option Module :=
  modulesToCover.find? (isTraced · (splitPathIntoDirectoryAndFileName ((tokens line).getLastD [])))

def insertModule (traceModIDToFluffiModID : ModuleMap) (moduleid : ℤ) (line : Line) : ModuleMap :=
  match tracedModule modulesToCover line with
  | some m =>
    Function.update traceModIDToFluffiModID (UInt32.ofInt moduleid) (some m.m_moduleid.toUInt32)
  | none => traceModIDToFluffiModID

/-- The loop over the modules. -/
def moduleLoop : ℕ → Line → LineStream Char → ModuleMap →
    Except Stop (LineStream Char × ModuleMap)
  | 0, _, iss, traceModIDToFluffiModID => .ok (iss, traceModIDToFluffiModID)
  | n + 1, line, iss, traceModIDToFluffiModID =>
    let (line, iss) := getline '\n' line iss
    if (tokens line).length < 6 then .error .returns
    else
      match moduleid line with
      | none => .error .exit
      | some id =>
        moduleLoop n line iss (insertModule modulesToCover traceModIDToFluffiModID id line)

/-! ### The header -/

def flavors : List Line :=
  ["DRCOV FLAVOR: drcov".toList, "DRCOV FLAVOR: drcov-64".toList, "DRCOV FLAVOR: drcov-32".toList]

def columnLines : List Line :=
  ["Columns: id, containing_id, start, end, entry, offset, checksum, timestamp, path".toList,
    "Columns: id, containing_id, start, end, entry, offset, path".toList]

/-- What the loop over the blocks goes by. -/
structure Header where
  traceModIDToFluffiModID : ModuleMap
  numbbs : UInt64
  /-- The end of the header, cast to an `int`. -/
  tellg : ℤ

/-- The line with the number of blocks. The third token is taken whether it is there or not. -/
def readNumbbs (basicblockLine : Line) : Except Stop UInt64 :=
  match (splitString basicblockLine " ".toList)[2]? with
  | none => .error .outside
  | some token =>
    match stoll token with
    | none => .error .exit
    | some numbbs => .ok (UInt64.ofInt numbbs)

def readHeader (m_header : List Char) : Except Stop Header :=
  let (line, iss) := getline '\n' [] (ofText m_header)
  if line ≠ "DRCOV VERSION: 2".toList then .error .returns
  else
    let (line, iss) := getline '\n' line iss
    if line ∉ flavors then .error .returns
    else
      let (line, iss) := getline '\n' line iss
      match findFirst "count ".toList line with
      | none => .error .returns
      | some rest =>
        match stoi (rest.drop 6) with
        | none => .error .exit
        | some num_mods =>
          let (line, iss) := getline '\n' line iss
          if line ∉ columnLines then .error .returns
          else
            match moduleLoop modulesToCover num_mods.toNat line iss (fun _ => none) with
            | .error stop => .error stop
            | .ok (iss, traceModIDToFluffiModID) =>
              let (basicblockLine, iss) := getline '\n' [] iss
              match readNumbbs basicblockLine with
              | .error stop => .error stop
              | .ok numbbs =>
                .ok ⟨traceModIDToFluffiModID, numbbs, Deadlines.toSigned 32 iss.tellg⟩

/-! ### The lines of the header -/

/-- A line that the loop over the modules goes on behind. -/
def ModuleLine (line : Line) : Prop := 6 ≤ (tokens line).length ∧ (moduleid line).isSome = true

instance (line : Line) : Decidable (ModuleLine line) := inferInstanceAs (Decidable (_ ∧ _))

/-- The lines of so many modules, the last line over and over if there are fewer. -/
def moduleLines (lines : List Line) (num_mods : ℤ) : List Line :=
  (List.range' 4 num_mods.toNat).map (lineAt lines)

/-- The header is taken for the one of a version 2 file with so many modules. -/
structure Accepted (lines : List Line) (num_mods : ℤ) : Prop where
  version : lineAt lines 0 = "DRCOV VERSION: 2".toList
  flavor : lineAt lines 1 ∈ flavors
  count : ∃ rest, findFirst "count ".toList (lineAt lines 2) = some rest ∧
    stoi (rest.drop 6) = some num_mods
  columns : lineAt lines 3 ∈ columnLines
  modules : ∀ line ∈ moduleLines lines num_mods, ModuleLine line

theorem Accepted.unique {lines : List Line} {n n' : ℤ} (h : Accepted lines n)
    (h' : Accepted lines n') : n = n' := by
  obtain ⟨rest, hrest, hn⟩ := h.count
  obtain ⟨rest', hrest', hn'⟩ := h'.count
  obtain rfl : rest = rest' := Option.some.inj (hrest.symm.trans hrest')
  exact Option.some.inj (hn.symm.trans hn')

/-- The line with the number of blocks; nothing where the text ends before it. -/
def basicblockLine (lines : List Line) (num_mods : ℤ) : Line :=
  lines[4 + num_mods.toNat]?.getD []

/-- Where the table begins for the code: no position if the line before it has no end. -/
def tableBegin (lines : List Line) (num_mods : ℤ) : ℤ :=
  Deadlines.toSigned 32
    (if 5 + num_mods.toNat < lines.length then
      ((joined '\n' (lines.take (5 + num_mods.toNat))).length : ℤ)
    else -1)

def insertModules (traceModIDToFluffiModID : ModuleMap) (lines : List Line) : ModuleMap :=
  lines.foldl
    (fun traceModID line => insertModule modulesToCover traceModID ((moduleid line).getD 0) line)
    traceModIDToFluffiModID

/-- The FLUFFI id for an id of the trace: the last line counts that names a module to cover. -/
def fluffiModID (lines : List Line) (mod_id : UInt16) : Option Int32 :=
  lines.reverse.findSome? fun line =>
    if moduleid line = some (mod_id.toNat : ℤ) then
      (tracedModule modulesToCover line).map Module.m_moduleid
    else none

variable {modulesToCover}

theorem ofInt_eq_iff {n : ℤ} (h : IsInt n) (mod_id : UInt16) :
    UInt32.ofInt n = mod_id.toUInt32 ↔ n = mod_id.toNat := by
  have hlt := mod_id.toNat_lt
  rw [← UInt32.toNat_inj]
  simp only [UInt32.ofInt, UInt32.toNat_ofNat', UInt16.toNat_toUInt32, IsInt] at h ⊢
  omega

theorem insertModules_lookup {lines : List Line} (h : ∀ line ∈ lines, ModuleLine line)
    (mod_id : UInt16) :
    insertModules modulesToCover (fun _ => none) lines mod_id.toUInt32 =
      (fluffiModID modulesToCover lines mod_id).map Int32.toUInt32 := by
  induction lines using List.reverseRecOn with
  | nil => rfl
  | append_singleton lines line ih =>
    have hline := h line (by simp)
    have ih := ih fun l hl => h l (List.mem_append_left _ hl)
    obtain ⟨id, hid⟩ := Option.isSome_iff_exists.mp hline.2
    have hint : IsInt id := isInt_of_stoi hid
    rw [insertModules, List.foldl_append, List.foldl_cons, List.foldl_nil, ← insertModules,
      fluffiModID, List.reverse_append, List.reverse_singleton, List.singleton_append,
      List.findSome?_cons, ← fluffiModID, hid, Option.getD_some, insertModule]
    cases tracedModule modulesToCover line with
    | none => simpa using ih
    | some m =>
      dsimp only
      by_cases heq : UInt32.ofInt id = mod_id.toUInt32
      · have hnat := (ofInt_eq_iff hint mod_id).mp heq
        rw [heq, Function.update_self, hnat, if_pos rfl]
        rfl
      · have hne : id ≠ mod_id.toNat := fun hnat => heq ((ofInt_eq_iff hint mod_id).mpr hnat)
        rw [Function.update_of_ne (Ne.symm heq), ih, if_neg (by simpa using hne)]

/-! ### The code reads these lines -/

section Lines

variable {text : List Char}

theorem moduleLoop_accepts {n k : ℕ} {traceModID : ModuleMap}
    (h : ∀ line ∈ (List.range' (k + 1) n).map (lineAt (text.splitOn '\n')), ModuleLine line) :
    moduleLoop modulesToCover n (lineAt (text.splitOn '\n') k) (behind '\n' text (k + 1))
        traceModID =
      .ok (behind '\n' text (k + 1 + n),
        insertModules modulesToCover traceModID
          ((List.range' (k + 1) n).map (lineAt (text.splitOn '\n')))) := by
  induction n generalizing k traceModID with
  | zero => rfl
  | succ n ih =>
    rw [List.range'_succ, List.map_cons] at h ⊢
    have hline := h _ List.mem_cons_self
    obtain ⟨id, hid⟩ := Option.isSome_iff_exists.mp hline.2
    have hrest := @ih (k + 1)
      (insertModule modulesToCover traceModID id (lineAt (text.splitOn '\n') (k + 1)))
      fun line hmem => h line (List.mem_cons_of_mem _ hmem)
    rw [moduleLoop, getline_behind, lineAt_succ (List.splitOn_ne_nil _ _)]
    dsimp only
    rw [if_neg (not_lt.mpr hline.1), hid]
    dsimp only
    rw [hrest, insertModules, insertModules, List.foldl_cons, hid, Option.getD_some,
      Nat.add_right_comm (k + 1) 1 n, Nat.add_assoc (k + 1) n 1]

theorem moduleLoop_rejects {n k : ℕ} {traceModID : ModuleMap}
    (h : ¬ ∀ line ∈ (List.range' (k + 1) n).map (lineAt (text.splitOn '\n')), ModuleLine line) :
    ∃ stop ≠ Stop.outside,
      moduleLoop modulesToCover n (lineAt (text.splitOn '\n') k) (behind '\n' text (k + 1))
        traceModID = .error stop := by
  induction n generalizing k traceModID with
  | zero => exact absurd (by simp) h
  | succ n ih =>
    rw [List.range'_succ, List.map_cons, List.forall_mem_cons] at h
    rw [moduleLoop, getline_behind, lineAt_succ (List.splitOn_ne_nil _ _)]
    dsimp only
    split
    next => exact ⟨.returns, Stop.noConfusion, rfl⟩
    next hlength =>
      cases hid : moduleid (lineAt (text.splitOn '\n') (k + 1)) with
      | none => exact ⟨.exit, Stop.noConfusion, rfl⟩
      | some id =>
        refine ih fun hall => h ⟨⟨not_lt.mp hlength, ?_⟩, hall⟩
        rw [hid]
        rfl

theorem readHeader_accepted {num_mods : ℤ} (h : Accepted (text.splitOn '\n') num_mods) :
    readHeader modulesToCover text =
      (readNumbbs (basicblockLine (text.splitOn '\n') num_mods)).map fun numbbs =>
        ⟨insertModules modulesToCover (fun _ => none) (moduleLines (text.splitOn '\n') num_mods),
          numbbs, tableBegin (text.splitOn '\n') num_mods⟩ := by
  obtain ⟨rest, hrest, hcount⟩ := h.count
  have hne := List.splitOn_ne_nil '\n' text
  rw [readHeader, ← @behind_zero _ _ '\n', getline_behind, ← lineAt_zero]
  dsimp only
  rw [if_neg (not_not.mpr h.version), getline_behind, lineAt_succ hne]
  dsimp only
  rw [if_neg (not_not.mpr h.flavor), getline_behind, lineAt_succ hne]
  dsimp only
  rw [hrest]
  dsimp only
  rw [hcount]
  dsimp only
  rw [getline_behind, lineAt_succ hne]
  dsimp only
  rw [if_neg (not_not.mpr h.columns), moduleLoop_accepts h.modules]
  dsimp only
  rw [getline_behind, Nat.add_right_comm 4 _ 1]
  dsimp only
  rw [tellg_behind, ← tableBegin, ← basicblockLine]
  cases readNumbbs (basicblockLine (text.splitOn '\n') num_mods) with
  | error stop => rfl
  | ok numbbs => rfl

theorem readHeader_rejected (h : ∀ num_mods, ¬ Accepted (text.splitOn '\n') num_mods) :
    ∃ stop ≠ Stop.outside, readHeader modulesToCover text = .error stop := by
  have hne := List.splitOn_ne_nil '\n' text
  rw [readHeader, ← @behind_zero _ _ '\n', getline_behind, ← lineAt_zero]
  dsimp only
  split
  next => exact ⟨.returns, Stop.noConfusion, rfl⟩
  next hversion =>
    rw [getline_behind, lineAt_succ hne]
    dsimp only
    split
    next => exact ⟨.returns, Stop.noConfusion, rfl⟩
    next hflavor =>
      rw [getline_behind, lineAt_succ hne]
      dsimp only
      split
      next => exact ⟨.returns, Stop.noConfusion, rfl⟩
      next rest hrest =>
        split
        next => exact ⟨.exit, Stop.noConfusion, rfl⟩
        next num_mods hcount =>
          rw [getline_behind, lineAt_succ hne]
          dsimp only
          split
          next => exact ⟨.returns, Stop.noConfusion, rfl⟩
          next hcolumns =>
            obtain ⟨stop, hstop, heq⟩ := moduleLoop_rejects (fun hmodules => h num_mods
              ⟨not_not.mp hversion, not_not.mp hflavor, ⟨rest, hrest, hcount⟩,
                not_not.mp hcolumns, hmodules⟩)
            rw [heq]
            exact ⟨stop, hstop, rfl⟩

end Lines

end Fluffi.Runner.Drcov
