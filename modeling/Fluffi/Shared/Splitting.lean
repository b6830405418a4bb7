import Fluffi.Shared.Strings
import Fluffi.Systems.Occurrences

/-! Cutting strings and replacing in them. One function moves an index over the string, one
makes the string shorter, and one erases and inserts in place. All of them visit the same
places. -/

namespace Fluffi.Shared

open Fluffi.Systems.Occurrences

/-! ### Strings of the C++ library -/

/-- `std::string::find` -/
def find (str token : List Char) (pos : ℕ) : Option ℕ :=
  if pos ≤ str.length then (firstIndex token (str.drop pos)).map (pos + ·) else none

/-- `std::string::substr` up to the end; `none` where it throws. -/
def substrFrom (str : List Char) (pos : ℕ) : Option (List Char) :=
  if pos ≤ str.length then some (str.drop pos) else none

/-- `std::string::substr`; `none` where it throws. -/
def substr (str : List Char) (pos n : ℕ) : Option (List Char) :=
  (substrFrom str pos).map (·.take n)

/-- `std::string::erase`; `none` where it throws. -/
def eraseAt (str : List Char) (pos n : ℕ) : Option (List Char) :=
  if pos ≤ str.length then some (str.take pos ++ str.drop (pos + n)) else none

/-- `std::string::insert`; `none` where it throws. -/
def insertAt (str : List Char) (pos : ℕ) (text : List Char) : Option (List Char) :=
  if pos ≤ str.length then some (str.take pos ++ text ++ str.drop pos) else none

/-! ### The three loops -/

namespace Util

/-- The loop of `Util::splitString`, with its number of turns bounded. -/
def splitLoop (str token : List Char) : ℕ → ℕ → Option (List (List Char))
  | 0, _ => none
  | turns + 1, curIndex =>
    match find str token curIndex with
    | some nextIndex => do
      let piece ← substr str curIndex (nextIndex - curIndex)
      let result ← splitLoop str token turns (nextIndex + token.length)
      return piece :: result
    | none => do
      let piece ← substrFrom str curIndex
      return [piece]

def splitString (turns : ℕ) (str token : List Char) : Option (List (List Char)) :=
  if str.isEmpty then some [[]]
  else if token.isEmpty then some [str]
  else splitLoop str token turns 0

/-- The loop of `Util::replaceAll`, with its number of turns bounded. -/
def replaceLoop (search replace : List Char) : ℕ → List Char → ℕ → Option (List Char)
  | 0, _, _ => none
  | turns + 1, s, pos =>
    match find s search pos with
    | none => some s
    | some pos => do
      let s ← eraseAt s pos search.length
      let s ← insertAt s pos replace
      replaceLoop search replace turns s (pos + replace.length)

def replaceAll (turns : ℕ) (s search replace : List Char) : Option (List Char) :=
  replaceLoop search replace turns s 0

end Util

namespace TCPFeeder

/-- The loop of the feeder's `splitString`, with its number of turns bounded. -/
def splitLoop (token : List Char) : ℕ → List Char → Option (List (List Char))
  | 0, _ => none
  | turns + 1, str =>
    if str.length = 0 then some []
    else
      match find str token 0 with
      | some index => do
        let piece ← substr str 0 index
        let str ← substrFrom str (index + token.length)
        let result ← splitLoop token turns str
        return piece :: if str.length = 0 then str :: result else result
      | none => do
        let result ← splitLoop token turns []
        return str :: result

def splitString (turns : ℕ) (str token : List Char) : Option (List (List Char)) :=
  if str.isEmpty then some [[]]
  else if token.isEmpty then some [str]
  else splitLoop token turns str

end TCPFeeder

variable {str token rest done replace : List Char} {pieces : List (List Char)} {i turns : ℕ}

theorem find_drop (h : i ≤ str.length) :
    find str token i = (firstIndex token (str.drop i)).map (i + ·) := if_pos h

/-- A turn of any of the loops makes the rest shorter by a token at least. -/
theorem length_drop_lt (htoken : token ≠ []) (h : firstIndex token rest = some i) :
    (rest.drop (i + token.length)).length < rest.length := by
  have hlength := le_length_of_firstIndex h
  have hpos := List.length_pos_iff.mpr htoken
  rw [List.length_drop]
  omega

/-! ### What they compute -/

/-- What is left is the rest of the string from the index on. -/
theorem Util.splitLoop_cuts (htoken : token ≠ []) (h : Cuts token rest pieces) {curIndex : ℕ}
    (hindex : curIndex ≤ str.length) (hrest : str.drop curIndex = rest)
    (hturns : rest.length < turns) : splitLoop str token turns curIndex = some pieces := by
  induction h generalizing curIndex turns with
  | @last rest hnone =>
    obtain ⟨turns, rfl⟩ : ∃ n, turns = n + 1 := ⟨turns - 1, by omega⟩
    rw [splitLoop, find_drop hindex, hrest, hnone]
    simp [substrFrom, hindex, hrest]
  | @next rest i pieces hfirst _ ih =>
    obtain ⟨turns, rfl⟩ : ∃ n, turns = n + 1 := ⟨turns - 1, by omega⟩
    have hlength := le_length_of_firstIndex hfirst
    have hshorter := length_drop_lt htoken hfirst
    have hlast : str.length = curIndex + rest.length := by
      rw [← hrest, List.length_drop]
      omega
    have hnext := @ih turns (curIndex + i + token.length) (by omega)
      (by rw [← hrest, List.drop_drop, Nat.add_assoc]) (by omega)
    rw [splitLoop, find_drop hindex, hrest, hfirst]
    simp [substr, substrFrom, hindex, hrest, hnext]

theorem TCPFeeder.splitLoop_cuts (htoken : token ≠ []) (h : Cuts token rest pieces)
    (hne : rest ≠ []) (hturns : rest.length < turns) :
    splitLoop token turns rest = some pieces := by
  induction h generalizing turns with
  | @last rest hnone =>
    have hpos := List.length_pos_iff.mpr hne
    obtain ⟨turns, rfl⟩ : ∃ n, turns = n + 2 := ⟨turns - 2, by omega⟩
    rw [splitLoop, if_neg (by omega), find_drop (Nat.zero_le _), List.drop_zero, hnone]
    simp [splitLoop]
  | @next rest i pieces hfirst hrest ih =>
    have hpos := List.length_pos_iff.mpr hne
    have hlength := le_length_of_firstIndex hfirst
    have hshorter := length_drop_lt htoken hfirst
    obtain ⟨turns, rfl⟩ : ∃ n, turns = n + 2 := ⟨turns - 2, by omega⟩
    rw [splitLoop, if_neg (by omega), find_drop (Nat.zero_le _), List.drop_zero, hfirst]
    by_cases hempty : rest.drop (i + token.length) = []
    · -- the token stands at the end, and the empty rest is the last piece
      have hpieces : pieces = [[]] := by
        rw [hempty] at hrest
        refine hrest.unique (.last ?_)
        rw [firstIndex_eq_none_iff, List.infix_nil]
        exact htoken
      simp [substr, substrFrom, hlength, hempty, hpieces, splitLoop]
    · have hnext := ih hempty (show _ < turns + 1 by omega)
      have hlast : i + token.length < rest.length := by
        rw [List.drop_eq_nil_iff] at hempty
        omega
      simp [substr, substrFrom, hlength, hnext, hlast]

/-- What was inserted is behind the index, and is not searched again. -/
theorem Util.replaceLoop_cuts (htoken : token ≠ []) (h : Cuts token rest pieces)
    (done : List Char) (hturns : rest.length < turns) :
    replaceLoop token replace turns (done ++ rest) done.length =
      some (done ++ replace.intercalate pieces) := by
  have hfind : ∀ done rest : List Char, find (done ++ rest) token done.length =
      (firstIndex token rest).map (done.length + ·) := by
    intro done rest
    rw [find_drop (by simp), List.drop_left]
  induction h generalizing done turns with
  | @last rest hnone =>
    obtain ⟨turns, rfl⟩ : ∃ n, turns = n + 1 := ⟨turns - 1, by omega⟩
    rw [replaceLoop, hfind, hnone, List.intercalate_singleton]
    rfl
  | @next rest i pieces hfirst hrest ih =>
    obtain ⟨turns, rfl⟩ : ∃ n, turns = n + 1 := ⟨turns - 1, by omega⟩
    have hlength := le_length_of_firstIndex hfirst
    have hshorter := length_drop_lt htoken hfirst
    have htake : (rest.take i).length = i := by
      rw [List.length_take]
      omega
    have herase : eraseAt (done ++ rest) (done.length + i) token.length =
        some (done ++ rest.take i ++ rest.drop (i + token.length)) := by
      rw [eraseAt, if_pos (by rw [List.length_append]; omega), List.take_length_add_append,
        Nat.add_assoc, List.drop_length_add_append]
    have hinsert : insertAt (done ++ rest.take i ++ rest.drop (i + token.length))
        (done.length + i) replace =
        some (done ++ rest.take i ++ replace ++ rest.drop (i + token.length)) := by
      have hi : done.length + i = (done ++ rest.take i).length := by
        rw [List.length_append, htake]
      rw [insertAt, hi, if_pos (List.prefix_append _ _).length_le, List.take_left,
        List.drop_left]
    have hnext := @ih turns (done ++ rest.take i ++ replace) (by omega)
    rw [List.length_append, List.length_append, htake] at hnext
    rw [replaceLoop, hfind, hfirst, List.intercalate_cons_of_ne_nil hrest.ne_nil]
    simp only [Option.map_some, herase, hinsert, Option.bind_eq_bind, Option.bind_some, hnext]
    simp only [List.append_assoc]

/-! ### The loop that goes from character to character -/

theorem splitLoop_skip {skip : ℕ} (piece : List Char) (hskip : skip ≤ rest.length) :
    splitLoop token piece skip rest = splitLoop token piece 0 (rest.drop skip) := by
  induction rest generalizing skip with
  | nil =>
    obtain rfl := Nat.le_zero.mp hskip
    rfl
  | cons c rest ih =>
    cases skip with
    | zero => rfl
    | succ skip => exact ih (Nat.le_of_succ_le_succ hskip)

theorem splitLoop_of_none (piece : List Char) (h : firstIndex token rest = none) :
    splitLoop token piece 0 rest = [piece ++ rest] := by
  induction rest generalizing piece with
  | nil => rw [splitLoop, List.append_nil]
  | cons c rest ih =>
    rw [firstIndex] at h
    split at h
    · cases h
    case isFalse hstarts =>
      rw [splitLoop, if_neg hstarts, ih _ (Option.map_eq_none_iff.mp h), List.append_assoc,
        List.singleton_append]

theorem splitLoop_of_some (htoken : token ≠ []) (piece : List Char)
    (h : firstIndex token rest = some i) :
    splitLoop token piece 0 rest =
      (piece ++ rest.take i) :: splitLoop token [] 0 (rest.drop (i + token.length)) := by
  have hlength := le_length_of_firstIndex h
  have hpos := List.length_pos_iff.mpr htoken
  induction rest generalizing i piece with
  | nil =>
    rw [List.length_nil] at hlength
    omega
  | cons c rest ih =>
    rw [firstIndex] at h
    rw [List.length_cons] at hlength
    split at h
    case isTrue hstarts =>
      cases h
      obtain ⟨n, hn⟩ : ∃ n, token.length = n + 1 := ⟨token.length - 1, by omega⟩
      rw [splitLoop, if_pos hstarts, splitLoop_skip [] (by omega), List.take_zero,
        List.append_nil, Nat.zero_add, hn, List.drop_succ_cons, Nat.add_sub_cancel]
    case isFalse hstarts =>
      obtain ⟨j, hj, rfl⟩ := Option.map_eq_some_iff.mp h
      rw [splitLoop, if_neg hstarts, ih _ hj (by omega), List.append_assoc, List.take_succ_cons,
        List.singleton_append, Nat.add_right_comm, List.drop_succ_cons]

theorem splitLoop_cuts (htoken : token ≠ []) (h : Cuts token rest pieces) :
    splitLoop token [] 0 rest = pieces := by
  induction h with
  | last hnone => exact splitLoop_of_none [] hnone
  | next hfirst _ ih => rw [splitLoop_of_some htoken [] hfirst, ih, List.nil_append]

theorem splitString_cuts (htoken : token ≠ []) (str : List Char) :
    Cuts token str (splitString str token) := by
  obtain ⟨pieces, hcuts⟩ := exists_cuts htoken str
  rw [splitString, if_neg (show ¬ token.isEmpty = true by rwa [List.isEmpty_iff])]
  split
  case isTrue hempty =>
    rw [List.isEmpty_iff.mp hempty]
    refine .last ?_
    rw [firstIndex_eq_none_iff, List.infix_nil]
    exact htoken
  case isFalse => rwa [splitLoop_cuts htoken hcuts]

/-- Both functions that split cut like the loop that goes from character to character. -/
theorem Util.splitString_eq (htoken : token ≠ []) (hturns : str.length < turns) :
    Util.splitString turns str token = some (Shared.splitString str token) := by
  have hcuts := splitString_cuts htoken str
  have htokenEmpty : ¬ token.isEmpty = true := by rwa [List.isEmpty_iff]
  rw [Util.splitString, if_neg htokenEmpty]
  split
  case isTrue hempty => rw [Shared.splitString, if_pos hempty]
  case isFalse => exact Util.splitLoop_cuts htoken hcuts (Nat.zero_le _) rfl hturns

theorem TCPFeeder.splitString_eq (htoken : token ≠ []) (hturns : str.length < turns) :
    TCPFeeder.splitString turns str token = some (Shared.splitString str token) := by
  have hcuts := splitString_cuts htoken str
  have htokenEmpty : ¬ token.isEmpty = true := by rwa [List.isEmpty_iff]
  rw [TCPFeeder.splitString, if_neg htokenEmpty]
  split
  case isTrue hempty => rw [Shared.splitString, if_pos hempty]
  case isFalse hempty =>
    exact TCPFeeder.splitLoop_cuts htoken hcuts (by rwa [List.isEmpty_iff] at hempty) hturns

/-- For every string and every token that is not empty, the functions return, and all of them
cut the string at the same places. -/
theorem splitString_replaceAll (str : List Char) (htoken : token ≠ []) :
    ∃ pieces, (∀ turns > str.length, Util.splitString turns str token = some pieces) ∧
      token.intercalate pieces = str ∧ (∀ piece ∈ pieces, ¬ token <:+: piece) ∧
      pieces.length = occurrences token str + 1 ∧
      (∀ turns > str.length, TCPFeeder.splitString turns str token = some pieces) ∧
      ∀ replace, ∀ turns > str.length,
        Util.replaceAll turns str token replace = some (replace.intercalate pieces) := by
  have hcuts := splitString_cuts htoken str
  refine ⟨splitString str token, ?_, hcuts.intercalate, hcuts.not_infix htoken,
    hcuts.length htoken, ?_, ?_⟩
  · exact fun turns hturns => Util.splitString_eq htoken hturns
  · exact fun turns hturns => TCPFeeder.splitString_eq htoken hturns
  · exact fun replace turns hturns => Util.replaceLoop_cuts htoken hcuts [] hturns

/-- Overlapping places, and a replacement that contains the token. -/
theorem splitString_aaa : ∃ pieces,
    (∀ turns > 3, Util.splitString turns "aaa".toList "aa".toList = some pieces) ∧
      "aa".toList.intercalate pieces = "aaa".toList ∧
      (∀ piece ∈ pieces, ¬ "aa".toList <:+: piece) ∧
      pieces.length = occurrences "aa".toList "aaa".toList + 1 ∧
      (∀ turns > 3, TCPFeeder.splitString turns "aaa".toList "aa".toList = some pieces) ∧
      ∀ replace, ∀ turns > 3, Util.replaceAll turns "aaa".toList "aa".toList replace =
        some (replace.intercalate pieces) :=
  splitString_replaceAll "aaa".toList (by decide)

example : Util.replaceAll 4 "aaa".toList "aa".toList "aab".toList = some "aaba".toList := by
  decide

end Fluffi.Shared
