import Fluffi.CaRRoT.Correlation
import Fluffi.Systems.Slices

/-! The mutation of strings. A string that has length fields is shortened, lengthened, removed or
overwritten, some of its length fields get other values, and the zero bytes behind it may go. What
the random generator yields is drawn beforehand, a number for each of its calls. -/

namespace Fluffi.CaRRoT

open Fluffi.Systems Fluffi.Systems.Slices Fluffi.Shared

/-- A random number below `max`. -/
def ran (max draw : ℕ) : ℕ := if max = 0 then 0 else draw % max

theorem ran_lt {max draw : ℕ} (h : 0 < max) : ran max draw < max := by
  rw [ran, if_neg (by omega)]
  exact Nat.mod_lt _ h

/-- What is drawn for one change of a length field. -/
structure FieldDraws where
  field : ℕ
  change : ℕ
  amount : ℕ

/-- What is drawn for one mutation. A byte that is filled in at a position takes several. -/
structure Draws where
  block : ℕ
  string : ℕ
  amount : ℕ
  fill : ℕ → ℕ → ℕ
  changes : ℕ
  fields : ℕ → FieldDraws
  terminator : ℕ

/-! ### New strings -/

def randomByte (draw : ℕ) : UInt8 := UInt8.ofNat (ran 255 draw)

def randomAscii (draw : ℕ) : UInt8 := UInt8.ofNat (ran (0x7E - 0x20) draw + 0x20)

def fillCtrl (t : Text) (draw : ℕ → ℕ → ℕ) : Bytes :=
  (List.range t.len).map fun i => UInt8.ofNat (ran 0x20 (draw i 0))

def fillInvalid (t : Text) (draw : ℕ → ℕ → ℕ) : Bytes :=
  match t.enc with
  | .ascii => (List.range t.len).map fun i => randomByte (draw i 0) ||| 0x80
  | .utf8 => (List.range t.len).map fun i => (randomByte (draw i 0) ||| 0x80) &&& 0xBF
  | .unicode => (List.range t.len).map fun i => randomByte (draw i 0)

/-- A buffer that starts with the string. -/
def fillStart (content : Bytes) (t : Text) (length : ℕ) : Option Bytes :=
  (slice content t.pos (t.pos + t.len)).bind
    (copyTo (List.replicate length 0x00) 0 t.len)

def utf8Follow (draw : ℕ) : UInt8 := (randomByte draw ||| 0x80) &&& 0xBF

/-- A character of UTF-8 for a place where `left` bytes are left. The longer ones are tried before
the shorter ones. -/
def utf8Character (left : ℕ) (draw : ℕ → ℕ) : Bytes :=
  if ran 10 (draw 0) = 0 ∧ 4 ≤ left then
    [(randomByte (draw 1) ||| 0xF0) &&& 0xF7, utf8Follow (draw 2), utf8Follow (draw 3),
      utf8Follow (draw 4)]
  else if ran 10 (draw 0) ≤ 2 ∧ 3 ≤ left then
    [(randomByte (draw 1) ||| 0xE0) &&& 0xEF, utf8Follow (draw 2), utf8Follow (draw 3)]
  else if ran 10 (draw 0) ≤ 5 ∧ 2 ≤ left then
    [(randomByte (draw 1) ||| 0xC0) &&& 0xDF, utf8Follow (draw 2)]
  else [randomAscii (draw 1)]

theorem utf8Character_length (left : ℕ) (draw : ℕ → ℕ) (hleft : 0 < left) :
    0 < (utf8Character left draw).length ∧ (utf8Character left draw).length ≤ left := by
  rw [utf8Character]
  split
  · rename_i h
    exact ⟨Nat.succ_pos _, h.2⟩
  · split
    · rename_i h
      exact ⟨Nat.succ_pos _, h.2⟩
    · split
      · rename_i h
        exact ⟨Nat.succ_pos _, h.2⟩
      · exact ⟨Nat.succ_pos _, hleft⟩

def fillUtf8 (length : ℕ) (draw : ℕ → ℕ → ℕ) (i : ℕ) (b : Bytes) : Option Bytes :=
  if i < length then
    (put b i (utf8Character (length - i) (draw i))).bind
      (fillUtf8 length draw (i + (utf8Character (length - i) (draw i)).length))
  else some b
termination_by length - i
decreasing_by
  have := (utf8Character_length (length - i) (draw i) (by omega)).1
  omega

/-- The byte before a position; there is none before the first. -/
def byteBefore (b : Bytes) (i : ℕ) : Option UInt8 := if i = 0 then none else b[i - 1]?

def fillString (content : Bytes) (t : Text) (length : ℕ) (draw : ℕ → ℕ → ℕ) : Option Bytes :=
  (fillStart content t length).bind fun b =>
    match t.enc with
    | .ascii =>
      (List.range' t.len (length - t.len)).foldlM
        (fun b i => put b i [randomAscii (draw i 0)]) b
    | .utf8 => fillUtf8 length draw t.len b
    | .unicode =>
      (List.range' t.len (length - t.len)).foldlM
        (fun b i => (byteBefore b i).bind fun last =>
          put b i [if last = 0x00 then randomAscii (draw i 0) else 0x00]) b

/-! ### The file with another string -/

/-- The first bytes of the string are kept. -/
def shortened (file : Bytes) (t : Text) (short : ℕ) : Option Bytes :=
  (slice file 0 (t.pos + short)).bind fun head =>
    (slice file (t.pos + t.len) file.length).bind fun tail =>
      (copyTo (List.replicate (file.length - t.len + short) 0x00) 0 (t.pos + short) head).bind
        fun mutated => copyTo mutated (t.pos + short) mutated.length tail

/-- `bs` takes the place of the string, in a file of `size` bytes. -/
def replaced (file : Bytes) (t : Text) (size len : ℕ) (bs : Bytes) : Option Bytes :=
  (slice file 0 t.pos).bind fun head =>
    (slice file (t.pos + t.len) file.length).bind fun tail =>
      (copyTo (List.replicate size 0x00) 0 t.pos head).bind fun mutated =>
        (copyTo mutated t.pos (t.pos + len) bs).bind fun mutated =>
          copyTo mutated (t.pos + len) mutated.length tail

def lengthened (content file : Bytes) (t : Text) (long : ℕ) (draw : ℕ → ℕ → ℕ) : Option Bytes :=
  (fillString content t long draw).bind fun bs =>
    replaced file t (file.length - t.len + long) bs.length bs

def removed (file : Bytes) (t : Text) : Option Bytes :=
  (slice file 0 t.pos).bind fun head =>
    (slice file (t.pos + t.len) file.length).bind fun tail =>
      (copyTo (List.replicate (file.length - t.len) 0x00) 0 t.pos head).bind fun mutated =>
        copyTo mutated t.pos mutated.length tail

/-- The mutated file, and the new length of the string. -/
def modifyString (content file : Bytes) (size : ℕ) (t : Text) (d : Draws) :
    Option (Bytes × ℕ) :=
  match ran 15 d.string with
  | 0 => some (file, t.len)
  | 1 | 2 => (shortened file t (ran t.len d.amount)).map (·, ran t.len d.amount)
  | 3 | 4 | 5 | 6 =>
    (lengthened content file t (t.len + ran size d.amount) d.fill).map
      (·, t.len + ran size d.amount)
  | 7 => (removed file t).map (·, 0)
  | 8 =>
    (lengthened content file t (t.len + ran (1000 * size) d.amount) d.fill).map
      (·, t.len + ran (1000 * size) d.amount)
  | 9 | 10 | 11 => (replaced file t file.length t.len (fillCtrl t d.fill)).map (·, t.len)
  | 12 | 13 | 14 => (replaced file t file.length t.len (fillInvalid t d.fill)).map (·, t.len)
  | _ => some ([], 0)

/-! ### Length fields -/

def writeNewValue (target : Bytes) (i : FoundInt) (val : ℕ) : Option Bytes :=
  match i.enc with
  | .uint16be | .int16be => put target i.pos (bytesOf 2 val).reverse
  | .uint32be | .int32be => put target i.pos (bytesOf 4 val).reverse
  | .uint64be | .int64be => put target i.pos (bytesOf 8 val).reverse
  | .uint16le | .int16le => put target i.pos (bytesOf 2 val)
  | .uint32le | .int32le => put target i.pos (bytesOf 4 val)
  | .uint64le | .int64le => put target i.pos (bytesOf 8 val)

/-- The length field that is changed. -/
def chosen (fields : List FoundInt) (d : FieldDraws) : Option FoundInt :=
  fields[ran fields.length d.field]?

def changeField (newlength : ℕ) (fields : List FoundInt) (d : FieldDraws) (mutated : Bytes) :
    Option Bytes :=
  (chosen fields d).bind fun l =>
    match ran 11 d.change with
    | 0 => some mutated
    | 1 | 2 | 3 => writeNewValue mutated l (newlength - ran newlength d.amount)
    | 4 => writeNewValue mutated l newlength
    | 5 | 6 => writeNewValue mutated l (newlength + ran (100 * newlength) d.amount)
    | 7 | 8 | 9 => put mutated l.pos (List.replicate l.byteW 0x00)
    | 10 => put mutated l.pos (List.replicate l.byteW 0xff)
    | _ => some mutated

/-- The file after so many changes. -/
def changeFields (newlength : ℕ) (fields : List FoundInt) (d : Draws) (mutated : Bytes) :
    ℕ → Option Bytes
  | 0 => some mutated
  | k + 1 =>
    (changeFields newlength fields d mutated k).bind (changeField newlength fields (d.fields k))

def changesOf (fields : List FoundInt) (d : Draws) : ℕ :=
  if fields.length > 2 then ran (fields.length / 2) d.changes else 1

/-! ### The mutator -/

/-- The first position from `start` on that has no zero byte, or the end. -/
def firstNonTerm (mutated : Bytes) (start : ℕ) : ℕ :=
  start + ((mutated.drop start).takeWhile (· = 0x00)).length

def removeTerminator (t : Text) (newlength draw : ℕ) (mutated : Bytes) : Option Bytes :=
  if ran 2 draw = 0 then
    if t.term then
      (slice mutated 0 (t.pos + newlength)).bind fun head =>
        (slice mutated (firstNonTerm mutated (t.pos + newlength)) mutated.length).map (head ++ ·)
    else some mutated
  else some mutated

/-- `StringM.Do`. The database has the content of the file, its size and its blocks. -/
def stringMDo (content : Bytes) (size : ℕ) (blks : List Block) (file : Bytes) (d : Draws) :
    Option Bytes :=
  if blks.length > 0 then
    (blks[ran blks.length d.block]?).bind fun blk =>
      match blk.length, blk.t with
      | _ :: _, t :: _ =>
        (modifyString content file size t d).bind fun (mutated, newlength) =>
          (changeFields newlength blk.length d mutated (changesOf blk.length d)).bind
            (removeTerminator t newlength d.terminator)
      | _, _ => some []
  else some []

end Fluffi.CaRRoT
