import Fluffi.Runner.OriginalBytes
import Fluffi.Shared.Splitting
import Fluffi.Systems.Memory
import Fluffi.Systems.Records
import Fluffi.Systems.Texts

/-! The commands that write to the memory of a target and read it: the texts that the runner
sends, what the debugger extension makes of them, and how the runner reads its answers. A write
is tried until it succeeds, and a command that names no type is never tried. -/

namespace Fluffi.Kfuzz

open Fluffi.Systems Occurrences
open Fluffi.Shared (find substrFrom find_drop)
open Fluffi.Runner.Gdb (Line hexText zeroFilled stoull16 stoull16_prefixed NoDigit readLine
  hexDigit mem_hexText)

/-! ### The texts of the runner -/

/-- A line of `generateEnableAllCommand`; `none` where the process ends. -/
def enableCommand (bpInstrBytes : ℕ) (m_absoluteAdress : UInt64) (bpInstr : UInt32) :
    Option Line :=
  let write (type : Line) :=
    "set \x7b".toList ++ type ++ "\x7d0x".toList ++ hexText m_absoluteAdress.toNat ++
      " = 0x".toList ++ hexText bpInstr.toNat
  match bpInstrBytes with
  | 1 => some (write "unsigned char".toList)
  | 2 => some (write "unsigned short".toList)
  | 4 => some (write "unsigned int".toList)
  | _ => none

/-- A line of what `gdbPrepareForDebug` sends; `none` where the process ends. -/
def readCommand (bpInstrBytes : ℕ) (address : UInt64) : Option Line :=
  match bpInstrBytes with
  | 1 => some ("x/1xb 0x".toList ++ hexText address.toNat)
  | 2 => some ("x/1xh 0x".toList ++ hexText address.toNat)
  | 4 => some ("x/1xw 0x".toList ++ hexText address.toNat)
  | _ => none

/-! ### The target -/

abbrev HRESULT := UInt32

def S_OK : HRESULT := 0

def E_UNEXPECTED : HRESULT := 0x8000FFFF

/-- On a memory on which writes succeed. -/
def WriteVirtualUncached (memory : CyclicMemory) (address : UInt64) (buffer : List UInt8) :
    HRESULT × CyclicMemory :=
  (S_OK, memory.write address buffer)

def WriteVirtual (memory : CyclicMemory) (address : UInt64) (buffer : List UInt8) :
    HRESULT × CyclicMemory :=
  (S_OK, memory.write address buffer)

/-! ### Writing -/

def notImplemented (command reason : Line) : Line :=
  "ERROR! Command \"".toList ++ command ++ "\" is not implemented, as ".toList ++ reason

def couldNotParse (command : Line) : Line :=
  "ERROR! Could not parse \"".toList ++ command ++ "\"".toList

/-- The number that begins one character before the index; `none` where it throws. -/
def numberAt (command : Line) (index : ℕ) : Option UInt64 :=
  match index with
  | 0 => none
  | before + 1 => (substrFrom command before).bind stoull16

def widthOf (command : Line) : Char :=
  if (find command "char".toList 0).isSome then 'b'
  else if (find command "short".toList 0).isSome then 'h'
  else if (find command "int".toList 0).isSome then 'w'
  else ' '

/-- `size` bytes of the value, to both. -/
def writeBytes (memory : CyclicMemory) (address value : UInt64) (size : ℕ) :
    HRESULT × CyclicMemory :=
  let (res, memory) := WriteVirtualUncached memory address (bytesOf size value.toNat)
  let (res', memory) := WriteVirtual memory address (bytesOf size value.toNat)
  (res ||| res', memory)

/-- The loop of `handleSet`, with its number of turns bounded. -/
def writeLoop (command : Line) (width : Char) (address value : UInt64) :
    ℕ → HRESULT → Line → CyclicMemory → Option (Line × CyclicMemory)
  | 0, res, response, memory => if res = S_OK then some (response, memory) else none
  | turns + 1, res, response, memory =>
    if res = S_OK then some (response, memory)
    else
      let next (written : HRESULT × CyclicMemory) :=
        writeLoop command width address value turns written.1 response written.2
      match width with
      | 'b' => next (writeBytes memory address value 1)
      | 'h' => next (writeBytes memory address value 2)
      | 'w' => next (writeBytes memory address value 4)
      | _ => writeLoop command width address value turns res
          (response ++ notImplemented command "the integer size is unknown".toList) memory

/-- The response and the memory; `none` where the loop is not done within the turns. -/
def handleSet (turns : ℕ) (command : Line) (memory : CyclicMemory) :
    Option (Line × CyclicMemory) :=
  match find command ['x'] 0 with
  | none => some
      (notImplemented command "a destination address could not be identified".toList, memory)
  | some indexOfFirstX =>
    match find command ['x'] (indexOfFirstX + 1) with
    | none => some
        (notImplemented command "a value to write could not be identified".toList, memory)
    | some indexOfSecondX =>
      match numberAt command indexOfFirstX, numberAt command indexOfSecondX with
      | some address, some value =>
        writeLoop command (widthOf command) address value turns E_UNEXPECTED [] memory
      | _, _ => some (couldNotParse command, memory)

/-! ### Reading -/

/-- The address as it was sent, and the value behind it. -/
def answer (addressString : Line) (digits val : ℕ) : Line :=
  addressString ++ ":   0x".toList ++ zeroFilled digits (hexText val)

/-- The branches of `handleX` for the letter of the width. -/
def readBytes (command addressString : Line) (memory : CyclicMemory) (address : UInt64) :
    Char → Line
  | 'b' => answer addressString 2 (word (memory.read address 1))
  | 'h' => answer addressString 4 (word (memory.read address 2))
  | 'w' => answer addressString 8 (word (memory.read address 4))
  | _ => notImplemented command "the integer size is unknown".toList

def handleX (command : Line) (memory : CyclicMemory) : Line :=
  match (find command ['0'] 0).bind (substrFrom command) with
  | none => couldNotParse command
  | some addressString =>
    match stoull16 addressString with
    | none => couldNotParse command
    | some address =>
      readBytes command addressString memory address (command.getD 4 '\x00')

/-! ### What should hold -/

/-- Within some number of turns the loop is done. -/
def Terminates (command : Line) (memory : CyclicMemory) : Prop :=
  ∃ turns result, handleSet turns command memory = some result

/-- There are an address and a value, and both are numbers. -/
def TwoNumbers (command : Line) : Prop :=
  ∃ i j, find command ['x'] 0 = some i ∧ find command ['x'] (i + 1) = some j ∧
    (numberAt command i).isSome = true ∧ (numberAt command j).isSome = true

def NamesType (command : Line) : Prop :=
  "char".toList <:+: command ∨ "short".toList <:+: command ∨ "int".toList <:+: command

/-- The bytes at the address are the low bytes of the value, and no other has changed. -/
structure Written (memory memory' : CyclicMemory) (size : ℕ) (address : UInt64)
    (value : UInt32) : Prop where
  bytes : memory'.read address size = bytesOf size value.toNat
  others : ∀ x, (∀ i < size, x ≠ address + UInt64.ofNat i) → memory' x = memory x

/-- What is written by the runner's command is what its next question gets back. -/
def RoundTrips (memory : CyclicMemory) (bpInstrBytes : ℕ) (address : UInt64) (value : UInt32)
    (command : Line) : Prop :=
  ∃ turns memory' question, handleSet turns command memory = some ([], memory') ∧
    Written memory memory' bpInstrBytes address value ∧
    readCommand bpInstrBytes address = some question ∧
    readLine address (handleX question memory') =
      .bytes (UInt32.ofNat (value.toNat % 256 ^ bpInstrBytes))

/-! ### When the loop ends -/

variable {command response pre mid rest : Line} {memory : CyclicMemory} {address value : UInt64}
  {res : HRESULT} {bpInstr : UInt32} {i j size turns n m : ℕ}

theorem isSome_find_iff {token : Line} :
    (find command token 0).isSome = true ↔ token <:+: command := by
  rw [find_drop (Nat.zero_le _), List.drop_zero, Option.isSome_map,
    ← not_iff_not, Bool.not_eq_true, Option.isSome_eq_false_iff, Option.isNone_iff_eq_none,
    firstIndex_eq_none_iff]

theorem widthOf_cases (command : Line) :
    (widthOf command = 'b' ∨ widthOf command = 'h' ∨ widthOf command = 'w') ∧
        NamesType command ∨
      widthOf command = ' ' ∧ ¬ NamesType command := by
  unfold widthOf NamesType
  simp only [isSome_find_iff]
  split_ifs with hchar hshort hint
  · exact .inl ⟨.inl rfl, .inl hchar⟩
  · exact .inl ⟨.inr (.inl rfl), .inr (.inl hshort)⟩
  · exact .inl ⟨.inr (.inr rfl), .inr (.inr hint)⟩
  · exact .inr ⟨rfl, fun h => h.elim hchar (Or.elim · hshort hint)⟩

theorem writeBytes_eq (memory : CyclicMemory) (address value : UInt64) (size : ℕ) :
    writeBytes memory address value size =
      (S_OK, memory.write address (bytesOf size value.toNat)) := by
  simp only [writeBytes, WriteVirtualUncached, WriteVirtual, CyclicMemory.write_write_self,
    UInt32.or_self]

/-- Without a type nothing is written, and the result stays what it was at first. -/
theorem writeLoop_unknown (hres : res ≠ S_OK) :
    writeLoop command ' ' address value turns res response memory = none := by
  induction turns generalizing response with
  | zero => exact if_neg hres
  | succ turns ih =>
    rw [writeLoop, if_neg hres]
    exact ih

/-- The number of bytes of a width. -/
def sizeOf : Char → ℕ
  | 'b' => 1
  | 'h' => 2
  | _ => 4

theorem writeLoop_known (hwidth : widthOf command = 'b' ∨ widthOf command = 'h' ∨
      widthOf command = 'w') :
    writeLoop command (widthOf command) address value 1 E_UNEXPECTED response memory =
      some (response, memory.write address (bytesOf (sizeOf (widthOf command)) value.toNat)) := by
  have hres : E_UNEXPECTED ≠ S_OK := by decide
  rw [writeLoop, if_neg hres]
  rcases hwidth with hwidth | hwidth | hwidth <;> rw [hwidth] <;>
    simp only [writeBytes_eq, writeLoop, if_true] <;> rfl

theorem handleSet_of_numbers (hi : find command ['x'] 0 = some i)
    (hj : find command ['x'] (i + 1) = some j) (haddress : numberAt command i = some address)
    (hvalue : numberAt command j = some value) :
    handleSet turns command memory =
      writeLoop command (widthOf command) address value turns E_UNEXPECTED [] memory := by
  simp only [handleSet, hi, hj, haddress, hvalue]

theorem handleSet_of_not_numbers (h : ¬ TwoNumbers command) :
    ∃ response, handleSet turns command memory = some (response, memory) := by
  unfold handleSet
  cases hi : find command ['x'] 0 with
  | none => exact ⟨_, rfl⟩
  | some i =>
    cases hj : find command ['x'] (i + 1) with
    | none =>
      simp only [hj]
      exact ⟨_, rfl⟩
    | some j =>
      cases haddress : numberAt command i with
      | none =>
        simp only [hj, haddress]
        exact ⟨_, rfl⟩
      | some address =>
        cases hvalue : numberAt command j with
        | none =>
          simp only [hj, haddress, hvalue]
          exact ⟨_, rfl⟩
        | some value =>
          refine absurd ⟨i, j, hi, hj, ?_, ?_⟩ h
          · rw [haddress, Option.isSome_some]
          · rw [hvalue, Option.isSome_some]

theorem terminates_iff (command : Line) (memory : CyclicMemory) :
    Terminates command memory ↔ ¬ TwoNumbers command ∨ NamesType command := by
  by_cases hnumbers : TwoNumbers command
  · obtain ⟨i, j, hi, hj, haddress, hvalue⟩ := id hnumbers
    obtain ⟨address, haddress⟩ := Option.isSome_iff_exists.mp haddress
    obtain ⟨value, hvalue⟩ := Option.isSome_iff_exists.mp hvalue
    have hloop := fun turns => @handleSet_of_numbers command memory address value i j turns
      hi hj haddress hvalue
    rcases widthOf_cases command with ⟨hwidth, htype⟩ | ⟨hwidth, htype⟩
    · exact iff_of_true ⟨1, _, (hloop 1).trans (writeLoop_known hwidth)⟩ (.inr htype)
    · refine iff_of_false ?_ (not_or_intro (not_not_intro hnumbers) htype)
      rintro ⟨turns, result, hdone⟩
      rw [hloop, hwidth, writeLoop_unknown (by decide)] at hdone
      cases hdone
  · obtain ⟨response, hdone⟩ := @handleSet_of_not_numbers command memory 0 hnumbers
    exact iff_of_true ⟨0, _, hdone⟩ (.inl hnumbers)

/-! ### The runner's commands -/

theorem x_notMem_hexText (n : ℕ) : 'x' ∉ hexText n := fun h => absurd (mem_hexText h) (by decide)

theorem noDigit_cons {c : Char} (hc : hexDigit c = none) (rest : Line) : NoDigit (c :: rest) := by
  simp [NoDigit, hc]

theorem stoull16_hexText (hn : n < 2 ^ 64) (hrest : NoDigit rest) :
    stoull16 ('0' :: 'x' :: (hexText n ++ rest)) = some (UInt64.ofNat n) := by
  have hfill : zeroFilled 0 (hexText n) = hexText n := by
    rw [zeroFilled, Nat.zero_sub, List.replicate_zero, List.nil_append]
  have hread := @stoull16_prefixed [] rest (by simp) 0 n hn hrest
  rw [hfill] at hread
  exact hread

theorem find_first {a : Char} {before behind : Line} (h : a ∉ before) :
    find (before ++ a :: behind) [a] 0 = some before.length := by
  rw [find_drop (Nat.zero_le _), List.drop_zero, firstIndex_append_of_notMem h]
  simp [firstIndex]

theorem find_next {a : Char} {before between behind : Line} (h : a ∉ between) :
    find (before ++ a :: (between ++ a :: behind)) [a] (before.length + 1) =
      some (before.length + 1 + between.length) := by
  have hdrop : (before ++ a :: (between ++ a :: behind)).drop (before.length + 1) =
      between ++ a :: behind := by
    rw [← List.drop_drop, List.drop_left, List.drop_one, List.tail_cons]
  rw [find_drop (by simp), hdrop, firstIndex_append_of_notMem h]
  simp [firstIndex]

theorem numberAt_append (before rest : Line) :
    numberAt (before ++ '0' :: rest) (before.length + 1) = stoull16 ('0' :: rest) := by
  rw [numberAt, substrFrom, if_pos (by simp), List.drop_left, Option.bind_some]

/-- A command with two numbers: the first `x` is the first number's, and the second one the
second number's. -/
theorem numbers_of_parts (hpre : 'x' ∉ pre) (hmid : 'x' ∉ mid) (hdigit : NoDigit mid)
    (hne : mid ≠ []) (hn : n < 2 ^ 64) (hm : m < 2 ^ 64)
    (hcommand : command =
      pre ++ '0' :: 'x' :: (hexText n ++ (mid ++ '0' :: 'x' :: hexText m))) :
    ∃ i j, find command ['x'] 0 = some i ∧ find command ['x'] (i + 1) = some j ∧
      numberAt command i = some (UInt64.ofNat n) ∧
      numberAt command j = some (UInt64.ofNat m) := by
  have hsplit : command =
      (pre ++ ['0']) ++ 'x' :: ((hexText n ++ (mid ++ ['0'])) ++ 'x' :: hexText m) := by
    rw [hcommand]
    simp only [List.append_assoc, List.cons_append, List.nil_append]
  have hzero : 'x' ∉ pre ++ ['0'] := by simp [hpre]
  have hbetween : 'x' ∉ hexText n ++ (mid ++ ['0']) := by simp [x_notMem_hexText, hmid]
  refine ⟨(pre ++ ['0']).length,
    (pre ++ ['0']).length + 1 + (hexText n ++ (mid ++ ['0'])).length, ?_, ?_, ?_, ?_⟩
  · rw [hsplit]
    exact find_first hzero
  · rw [hsplit]
    exact find_next hbetween
  · have hlength : (pre ++ ['0']).length = pre.length + 1 := by simp
    have hrest : NoDigit (mid ++ '0' :: 'x' :: hexText m) := by
      obtain ⟨c, mid, rfl⟩ := List.exists_cons_of_ne_nil hne
      exact hdigit
    rw [hcommand, hlength, numberAt_append, stoull16_hexText hn hrest]
  · have hparts : command =
        (pre ++ '0' :: 'x' :: (hexText n ++ mid)) ++ '0' :: 'x' :: (hexText m ++ []) := by
      rw [hcommand, List.append_nil]
      simp only [List.append_assoc, List.cons_append]
    have hlength : (pre ++ ['0']).length + 1 + (hexText n ++ (mid ++ ['0'])).length =
        (pre ++ '0' :: 'x' :: (hexText n ++ mid)).length + 1 := by
      simp only [List.length_append, List.length_cons, List.length_nil]
      omega
    rw [hparts, hlength, numberAt_append, stoull16_hexText hm (by simp [NoDigit])]

/-! ### The types -/

/-- What stands behind the type in a command of the runner. -/
def behindType (n m : ℕ) : Line :=
  "\x7d0x".toList ++ hexText n ++ " = 0x".toList ++ hexText m

theorem notMem_behindType {c : Char} (hdigit : hexDigit c = none) (hc : c ∉ "\x7d0x = ".toList)
    (n m : ℕ) : c ∉ behindType n m := by
  have hhex : ∀ k, c ∉ hexText k := fun k hmem => by
    have := mem_hexText hmem
    rw [hdigit] at this
    cases this
  have htext : ∀ text : Line, text ⊆ "\x7d0x = ".toList → c ∉ text :=
    fun text hsub hmem => hc (hsub hmem)
  simp only [behindType, List.mem_append, not_or]
  exact ⟨⟨⟨htext _ (by decide), hhex n⟩, htext _ (by decide)⟩, hhex m⟩

/-- A word that ends with such a character is found in the type or nowhere. -/
theorem isSome_find_type {word type : Line} {c : Char} (hdigit : hexDigit c = none)
    (hc : c ∉ "\x7d0x = ".toList) (n m : ℕ) :
    (find ("set \x7b".toList ++ type ++ behindType n m) (word ++ [c]) 0).isSome = true ↔
      word ++ [c] <:+: "set \x7b".toList ++ type := by
  rw [isSome_find_iff, infix_append_iff_of_notMem (notMem_behindType hdigit hc n m)]

theorem isSome_find_char (type : Line) (n m : ℕ) :
    (find ("set \x7b".toList ++ type ++ behindType n m) "char".toList 0).isSome = true ↔
      "char".toList <:+: "set \x7b".toList ++ type :=
  @isSome_find_type "cha".toList type 'r' (by decide) (by decide) n m

theorem isSome_find_short (type : Line) (n m : ℕ) :
    (find ("set \x7b".toList ++ type ++ behindType n m) "short".toList 0).isSome = true ↔
      "short".toList <:+: "set \x7b".toList ++ type :=
  @isSome_find_type "shor".toList type 't' (by decide) (by decide) n m

theorem isSome_find_int (type : Line) (n m : ℕ) :
    (find ("set \x7b".toList ++ type ++ behindType n m) "int".toList 0).isSome = true ↔
      "int".toList <:+: "set \x7b".toList ++ type :=
  @isSome_find_type "in".toList type 't' (by decide) (by decide) n m

/-- The three commands: the type has no `x`, and its width is the one that is meant. -/
theorem enableCommand_eq (h : enableCommand size address bpInstr = some command) :
    ∃ type, command = "set \x7b".toList ++ type ++ behindType address.toNat bpInstr.toNat ∧
      'x' ∉ type ∧ sizeOf (widthOf command) = size ∧
      (widthOf command = 'b' ∨ widthOf command = 'h' ∨ widthOf command = 'w') := by
  have hcommand : ∀ type : Line,
      "set \x7b".toList ++ type ++ "\x7d0x".toList ++ hexText address.toNat ++
        " = 0x".toList ++ hexText bpInstr.toNat =
      "set \x7b".toList ++ type ++ behindType address.toNat bpInstr.toNat := fun type => by
    simp only [behindType, List.append_assoc]
  unfold enableCommand at h
  simp only [hcommand] at h
  split at h
  · obtain rfl := Option.some.inj h
    refine ⟨"unsigned char".toList, rfl, by decide, ?_⟩
    have hwidth : widthOf ("set \x7b".toList ++ "unsigned char".toList ++
        behindType address.toNat bpInstr.toNat) = 'b' := by
      rw [widthOf, if_pos ((isSome_find_char _ _ _).mpr (by decide))]
    rw [hwidth]
    exact ⟨rfl, .inl rfl⟩
  · obtain rfl := Option.some.inj h
    refine ⟨"unsigned short".toList, rfl, by decide, ?_⟩
    have hwidth : widthOf ("set \x7b".toList ++ "unsigned short".toList ++
        behindType address.toNat bpInstr.toNat) = 'h' := by
      rw [widthOf, if_neg (mt (isSome_find_char _ _ _).mp (by decide)),
        if_pos ((isSome_find_short _ _ _).mpr (by decide))]
    rw [hwidth]
    exact ⟨rfl, .inr (.inl rfl)⟩
  · obtain rfl := Option.some.inj h
    refine ⟨"unsigned int".toList, rfl, by decide, ?_⟩
    have hwidth : widthOf ("set \x7b".toList ++ "unsigned int".toList ++
        behindType address.toNat bpInstr.toNat) = 'w' := by
      rw [widthOf, if_neg (mt (isSome_find_char _ _ _).mp (by decide)),
        if_neg (mt (isSome_find_short _ _ _).mp (by decide)),
        if_pos ((isSome_find_int _ _ _).mpr (by decide))]
    rw [hwidth]
    exact ⟨rfl, .inr (.inr rfl)⟩
  · cases h

/-- The runner's command writes the low bytes of its value, once the loop has made a turn. -/
theorem handleSet_enableCommand (h : enableCommand size address bpInstr = some command)
    (memory : CyclicMemory) :
    handleSet 1 command memory =
      some ([], memory.write address (bytesOf size bpInstr.toNat)) := by
  obtain ⟨type, hcommand, hx, hsize, hwidth⟩ := enableCommand_eq h
  have hparts : command = ("set \x7b".toList ++ type ++ ['\x7d']) ++ '0' :: 'x' ::
      (hexText address.toNat ++ ([' ', '=', ' '] ++ '0' :: 'x' :: hexText bpInstr.toNat)) := by
    rw [hcommand, behindType]
    simp
  have hpre : 'x' ∉ "set \x7b".toList ++ type ++ ['\x7d'] := by
    simp only [List.mem_append, not_or]
    exact ⟨⟨by decide, hx⟩, by decide⟩
  have hvalue : bpInstr.toNat < 2 ^ 64 := by
    have := bpInstr.toNat_lt
    omega
  obtain ⟨i, j, hi, hj, haddress, hnumber⟩ := numbers_of_parts hpre (by decide)
    (noDigit_cons (by decide) _) (by decide) address.toNat_lt hvalue hparts
  rw [handleSet_of_numbers hi hj haddress hnumber, writeLoop_known hwidth, hsize,
    UInt64.ofNat_toNat, UInt64.toNat_ofNat_of_lt' hvalue]

theorem written_write (memory : CyclicMemory) (address : UInt64) (value : UInt32) {size : ℕ}
    (hsize : size ≤ 4) :
    Written memory (memory.write address (bytesOf size value.toNat)) size address value := by
  have hlength := bytesOf_length size value.toNat
  refine ⟨?_, fun x hx => CyclicMemory.write_outside (by rwa [hlength])⟩
  have hread := @CyclicMemory.read_write_self memory address (bytesOf size value.toNat)
    (by omega)
  rwa [hlength] at hread

/-! ### The answer -/

/-- A question of the runner, with the letter of its width. -/
theorem handleX_of_letter {letter : Char} (hletter : letter ≠ '0') (address : UInt64)
    (memory : CyclicMemory) :
    handleX (['x', '/', '1', 'x', letter, ' '] ++ '0' :: 'x' :: hexText address.toNat) memory =
      readBytes (['x', '/', '1', 'x', letter, ' '] ++ '0' :: 'x' :: hexText address.toNat)
        ('0' :: 'x' :: hexText address.toNat) memory address letter := by
  have hfind : find (['x', '/', '1', 'x', letter, ' '] ++ '0' :: 'x' :: hexText address.toNat)
      ['0'] 0 = some 6 := find_first (by simp [hletter.symm])
  have hsubstr : substrFrom
      (['x', '/', '1', 'x', letter, ' '] ++ '0' :: 'x' :: hexText address.toNat) 6 =
        some ('0' :: 'x' :: hexText address.toNat) := if_pos (by simp)
  have hread : stoull16 ('0' :: 'x' :: hexText address.toNat) = some address := by
    have hread := @stoull16_hexText [] _ address.toNat_lt (by simp [NoDigit])
    rwa [List.append_nil, UInt64.ofNat_toNat] at hread
  simp only [handleX, hfind, Option.bind_some, hsubstr, hread]
  rfl

theorem handleX_readCommand {question : Line} (h : readCommand size address = some question)
    (memory : CyclicMemory) :
    handleX question memory = answer ('0' :: 'x' :: hexText address.toNat) (2 * size)
      (word (memory.read address size)) := by
  unfold readCommand at h
  split at h
  · obtain rfl := Option.some.inj h
    exact handleX_of_letter (by decide) address memory
  · obtain rfl := Option.some.inj h
    exact handleX_of_letter (by decide) address memory
  · obtain rfl := Option.some.inj h
    exact handleX_of_letter (by decide) address memory
  · cases h

theorem readLine_answer (address : UInt64) (digits : ℕ) (hn : n < 2 ^ 64) :
    readLine address (answer ('0' :: 'x' :: hexText address.toNat) digits n) =
      .bytes (UInt64.ofNat n).toUInt32 := by
  have hline : answer ('0' :: 'x' :: hexText address.toNat) digits n =
      ('0' :: 'x' :: hexText address.toNat) ++ ':' ::
        ("   ".toList ++ ("0x".toList ++ zeroFilled digits (hexText n) ++ [])) := by
    rw [answer]
    simp
  have hcolon : ':' ∉ '0' :: 'x' :: hexText address.toNat := by
    simp only [List.mem_cons, not_or]
    exact ⟨by decide, by decide, fun h => absurd (mem_hexText h) (by decide)⟩
  have haddress : stoull16 (answer ('0' :: 'x' :: hexText address.toNat) digits n) =
      some address := by
    rw [hline, List.cons_append, List.cons_append,
      stoull16_hexText address.toNat_lt (noDigit_cons (by decide) _), UInt64.ofNat_toNat]
  have hblanks : ∀ c ∈ "   ".toList, Runner.Gdb.isSpace c = true :=
    List.all_eq_true.mp (by decide : "   ".toList.all Runner.Gdb.isSpace = true)
  rw [readLine, haddress]
  simp only [if_true]
  rw [hline, idxOf?_append_cons hcolon]
  simp only
  rw [← List.drop_drop, List.drop_left, List.drop_one, List.tail_cons,
    stoull16_prefixed hblanks digits hn (by simp [NoDigit])]

theorem roundTrips (h : enableCommand size address bpInstr = some command)
    (memory : CyclicMemory) : RoundTrips memory size address bpInstr command := by
  obtain ⟨question, hquestion, hsize⟩ : ∃ question,
      readCommand size address = some question ∧ size ≤ 4 := by
    unfold enableCommand at h
    split at h
    · exact ⟨_, rfl, by decide⟩
    · exact ⟨_, rfl, by decide⟩
    · exact ⟨_, rfl, by decide⟩
    · cases h
  have hwritten := written_write memory address bpInstr hsize
  refine ⟨1, _, question, handleSet_enableCommand h memory, hwritten, hquestion, ?_⟩
  have hsmall : bpInstr.toNat % 256 ^ size < 2 ^ 64 :=
    (Nat.mod_le _ _).trans_lt (bpInstr.toNat_lt.trans (by decide))
  rw [handleX_readCommand hquestion, hwritten.bytes, word_bytesOf_mod,
    readLine_answer _ _ hsmall, UInt64.toUInt32_ofNat']

/-- A command makes the loop end exactly if there is nothing to write or a type is named, and the
commands of the runner write what it reads afterwards. -/
theorem handleSet_terminates_and_roundTrips (memory : CyclicMemory) :
    (∀ command, "set \x7b".toList <+: command →
      (Terminates command memory ↔ ¬ TwoNumbers command ∨ NamesType command)) ∧
    ∀ bpInstrBytes address value command,
      enableCommand bpInstrBytes address value = some command →
        RoundTrips memory bpInstrBytes address value command :=
  ⟨fun command _ => terminates_iff command memory, fun _ _ _ _ h => roundTrips h memory⟩

/-- The command for a breakpoint of one byte. -/
theorem roundTrips_breakpoint : RoundTrips (fun _ => 0) 1 0x401000 0xcc
    "set \x7bunsigned char\x7d0x401000 = 0xcc".toList :=
  (handleSet_terminates_and_roundTrips _).2 1 0x401000 0xcc _ (by decide)

/-- The type is none of the three, and the loop goes on for ever. -/
theorem not_terminates : ¬ Terminates "set \x7blong\x7d0x1 = 0x2".toList fun _ => 0 := by
  rw [terminates_iff, not_or, not_not]
  refine ⟨⟨11, 17, by decide, by decide, by decide, by decide⟩, ?_⟩
  unfold NamesType
  decide

end Fluffi.Kfuzz
