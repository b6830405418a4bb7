import Fluffi.Systems.Texts
import Mathlib.Data.List.Basic

/-! Paths on Linux. A path is split into its directory and its file name after its
backslashes have become slashes; apart from slashes and the names `.` and `/` that stand
for a missing part, every character of the path is in exactly one of the two. -/

namespace Fluffi.Shared

open Systems

/-- `n` slashes at the root. Two of them are kept. -/
def rootSlashes (n : ℕ) : List Char := if n = 2 then ['/', '/'] else ['/']

/-- `basename` of `libgen.h` -/
def basename (path : List Char) : List Char :=
  if path = [] then ['.']
  else
    let stripped := trimEnd (· == '/') path
    if stripped = [] then ['/'] else afterLast '/' stripped

/-- `dirname` of `libgen.h` -/
def dirname (path : List Char) : List Char :=
  let stripped := trimEnd (· == '/') path
  if stripped = [] then
    if path = [] then ['.'] else rootSlashes path.length
  else if '/' ∈ stripped then
    let directory := beforeLast '/' stripped
    let directoryStripped := trimEnd (· == '/') directory
    if directoryStripped = [] then rootSlashes (directory.length + 1) else directoryStripped
  else ['.']

/-- `Util::splitPathIntoDirectoryAndFileName`: the directory and the file name. -/
def splitPathIntoDirectoryAndFileName (path : List Char) : List Char × List Char :=
  let path := path.map fun c => if c = '\\' then '/' else c
  (dirname path, basename path)

/-! ### Where the characters go -/

theorem count_rootSlashes {c : Char} (hc : c ≠ '/') (n : ℕ) : (rootSlashes n).count c = 0 := by
  rw [rootSlashes]
  split <;> simp [Ne.symm hc]

/-- No other character is lost or doubled. -/
theorem count_dirname_add_count_basename {c : Char} (hslash : c ≠ '/') (hdot : c ≠ '.')
    (path : List Char) : (dirname path).count c + (basename path).count c = path.count c := by
  have hslashes : (c == '/') = false := by simpa using hslash
  have hcount := @count_trimEnd _ (· == '/') _ _ c hslashes path
  by_cases hpath : path = []
  · subst hpath
    simp [dirname, basename, trimEnd, Ne.symm hdot]
  by_cases hstripped : trimEnd (· == '/') path = []
  · rw [hstripped] at hcount
    rw [dirname, basename]
    simp only [hstripped, hpath, if_true, if_false, count_rootSlashes hslash]
    simp [← hcount, Ne.symm hslash]
  rw [basename, if_neg hpath, dirname]
  simp only [hstripped, if_false]
  by_cases hmem : '/' ∈ trimEnd (· == '/') path
  · have hcut := congrArg (List.count c) (beforeLast_append_afterLast hmem)
    rw [List.count_append, List.count_cons_of_ne (Ne.symm hslash), hcount] at hcut
    have hdirectory := @count_trimEnd _ (· == '/') _ _ c hslashes
      (beforeLast '/' (trimEnd (· == '/') path))
    rw [if_pos hmem]
    split
    case isTrue hempty =>
      rw [hempty] at hdirectory
      rw [count_rootSlashes hslash, ← hcut, ← hdirectory]
      simp
    case isFalse => rw [hdirectory, hcut]
  · rw [if_neg hmem, afterLast_of_notMem hmem, hcount]
    simp [Ne.symm hdot]

theorem count_backslashes {c : Char} (hslash : c ≠ '/') (hbackslash : c ≠ '\\')
    (path : List Char) :
    (path.map fun c => if c = '\\' then '/' else c).count c = path.count c := by
  induction path with
  | nil => rfl
  | cons a path ih =>
    rw [List.map_cons, List.count_cons, List.count_cons, ih]
    by_cases ha : a = '\\'
    · subst ha
      simp [Ne.symm hslash, Ne.symm hbackslash]
    · rw [if_neg ha]

theorem count_splitPath {c : Char} (hslash : c ≠ '/') (hbackslash : c ≠ '\\') (hdot : c ≠ '.')
    (path : List Char) :
    (splitPathIntoDirectoryAndFileName path).1.count c +
      (splitPathIntoDirectoryAndFileName path).2.count c = path.count c := by
  rw [splitPathIntoDirectoryAndFileName, count_dirname_add_count_basename hslash hdot,
    count_backslashes hslash hbackslash]

/-- Equal parts come from paths with the same characters. -/
theorem count_eq_of_split_eq {path path' : List Char}
    (h : splitPathIntoDirectoryAndFileName path = splitPathIntoDirectoryAndFileName path')
    {c : Char} (hslash : c ≠ '/') (hbackslash : c ≠ '\\') (hdot : c ≠ '.') :
    path.count c = path'.count c := by
  rw [← count_splitPath hslash hbackslash hdot path, h, count_splitPath hslash hbackslash hdot]

end Fluffi.Shared
