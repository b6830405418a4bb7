import Fluffi.Shared.TestcasePaths

/-! Testcase IDs read back from file names. The agents write the GUID and the local ID into the
name of a testcase file, and Oedipus takes them apart again at the last dash. The agents run on
two operating systems, and Oedipus is built for four kinds of processors. -/

namespace Fluffi.Oedipus

open Fluffi.Systems Fluffi.Shared

inductive OS where
  | windows
  | linux
  deriving DecidableEq, Repr

/-- `GOARCH` of the builds. -/
inductive Architecture where
  | i386
  | amd64
  | arm
  | arm64
  deriving DecidableEq, Repr

/-- `Util::pathSeperator` -/
def OS.pathSeperator : OS → Char
  | .windows => '\\'
  | .linux => '/'

/-- The number of bits of an `int`. -/
def Architecture.intSize : Architecture → ℕ
  | .i386 | .arm => 32
  | .amd64 | .arm64 => 64

/-! ### The agents -/

/-- `Util::generateTestcasePathAndFilename` -/
def OS.generateTestcasePathAndFilename (os : OS) (testcaseID : FluffiTestcaseID)
    (testcaseDir : String) : List Char :=
  testcaseDir.toList ++ os.pathSeperator :: (testcaseID.m_serviceDescriptor.m_guid.toList ++
    '-' :: Nat.toDigits 10 testcaseID.m_localID.toNat)

theorem linux_generateTestcasePathAndFilename (testcaseID : FluffiTestcaseID)
    (testcaseDir : String) :
    OS.linux.generateTestcasePathAndFilename testcaseID testcaseDir =
      (Shared.generateTestcasePathAndFilename testcaseID testcaseDir).toList :=
  (toList_testcasePath testcaseID testcaseDir).symm

/-! ### Oedipus -/

/-- `path.Base`, which knows slashes only. -/
def pathBase (path : List Char) : List Char :=
  if path = [] then ['.']
  else
    let path := trimEnd (· == '/') path
    let path := afterLast '/' path
    if path = [] then ['/'] else path

inductive NumError where
  | ErrSyntax
  | ErrRange
  deriving DecidableEq, Repr

/-- `strconv.Atoi`: the number, and an error if there is one. A number that is too large for an
`int` becomes the largest one. -/
def atoi (intSize : ℕ) (s : List Char) : ℤ × Option NumError :=
  let (neg, digits) := match s with
    | '-' :: rest => (true, rest)
    | '+' :: rest => (false, rest)
    | _ => (false, s)
  if digits = [] ∨ digits.all Char.isDigit = false then (0, some .ErrSyntax)
  else
    let un := Nat.ofDigitChars 10 digits 0
    let cutoff := 2 ^ (intSize - 1)
    if neg = false ∧ cutoff ≤ un then ((cutoff : ℤ) - 1, some .ErrRange)
    else if neg = true ∧ cutoff < un then (-(cutoff : ℤ), some .ErrRange)
    else (if neg then -(un : ℤ) else (un : ℤ), none)

/-- `strings.TrimSuffix` -/
def trimSuffix (s suffix : List Char) : List Char :=
  if suffix.isSuffixOf s then s.take (s.length - suffix.length) else s

/-- The GUID and the local ID that the given testcase is looked for with. The error of `Atoi` is
not looked at. -/
def parseFileName (goarch : Architecture) (filename : List Char) : List Char × UInt64 :=
  let base := pathBase filename
  let last := (base.splitOn '-').getLastD []
  let lID := (atoi goarch.intSize last).1
  (trimSuffix base ('-' :: last), UInt64.ofInt lID)

variable {os : OS} {goarch : Architecture} {testcaseID : FluffiTestcaseID} {testcaseDir : String}

/-! ### The base name -/

theorem slash_notMem_toDigits (n : ℕ) : '/' ∉ Nat.toDigits 10 n := by
  intro h
  have := Nat.isDigit_of_mem_toDigits (by decide) (by decide) h
  exact absurd this (by decide)

/-- What the base name of a path has in front of the GUID. -/
def OS.inFront (os : OS) (testcaseDir : String) : List Char :=
  match os with
  | .windows => afterLast '/' testcaseDir.toList ++ ['\\']
  | .linux => []

theorem pathBase_of_notMem (u : List Char) {v : List Char} (hne : v ≠ []) (hv : '/' ∉ v) :
    pathBase (u ++ v) = afterLast '/' (u ++ v) := by
  have hlast : trimEnd (· == '/') (u ++ v) = u ++ v := by
    refine trimEnd_eq_self fun a ha => ?_
    rw [List.getLast?_append_of_ne_nil _ hne] at ha
    rw [beq_eq_false_iff_ne]
    rintro rfl
    exact hv (List.mem_of_getLast? ha)
  have hafter : afterLast '/' (u ++ v) ≠ [] := by
    by_cases hu : '/' ∈ u
    · obtain ⟨x, y, rfl, hy⟩ := exists_cut hu
      have hnotMem : '/' ∉ y ++ v := by
        rw [List.mem_append, not_or]
        exact ⟨hy, hv⟩
      rw [List.append_assoc, List.cons_append, afterLast_append_cons x hnotMem]
      simp [hne]
    · rw [afterLast_of_notMem (by rw [List.mem_append, not_or]; exact ⟨hu, hv⟩)]
      simp [hne]
  rw [pathBase, if_neg (by simp [hne])]
  simp only [hlast, if_neg hafter]

theorem pathBase_testcasePath (hguid : '/' ∉ testcaseID.m_serviceDescriptor.m_guid.toList) :
    pathBase (os.generateTestcasePathAndFilename testcaseID testcaseDir) =
      os.inFront testcaseDir ++ testcaseID.m_serviceDescriptor.m_guid.toList ++
        '-' :: Nat.toDigits 10 testcaseID.m_localID.toNat := by
  have hname : '/' ∉ testcaseID.m_serviceDescriptor.m_guid.toList ++
      '-' :: Nat.toDigits 10 testcaseID.m_localID.toNat := by
    rw [List.mem_append, List.mem_cons, not_or, not_or]
    exact ⟨hguid, by decide, slash_notMem_toDigits _⟩
  cases os with
  | linux =>
    rw [OS.generateTestcasePathAndFilename, OS.pathSeperator, List.append_cons,
      pathBase_of_notMem _ (by simp) hname, ← List.append_cons, afterLast_append_cons _ hname,
      OS.inFront, List.nil_append]
  | windows =>
    rw [OS.generateTestcasePathAndFilename, OS.pathSeperator, List.append_cons,
      pathBase_of_notMem _ (by simp) hname, ← List.append_cons, OS.inFront]
    by_cases hdir : '/' ∈ testcaseDir.toList
    · obtain ⟨x, y, hxy, hy⟩ := exists_cut hdir
      have hnotMem : '/' ∉ y ++ '\\' :: (testcaseID.m_serviceDescriptor.m_guid.toList ++
          '-' :: Nat.toDigits 10 testcaseID.m_localID.toNat) := by
        rw [List.mem_append, List.mem_cons, not_or, not_or]
        exact ⟨hy, by decide, hname⟩
      rw [hxy, afterLast_append_cons x hy, List.append_assoc, List.cons_append,
        afterLast_append_cons x hnotMem]
      simp
    · rw [afterLast_of_notMem hdir, afterLast_of_notMem]
      · simp
      · rw [List.mem_append, List.mem_cons, not_or, not_or]
        exact ⟨hdir, by decide, hname⟩

/-! ### The parts -/

theorem getLastD_splitOn (u : List Char) (n : ℕ) :
    ((u ++ '-' :: Nat.toDigits 10 n).splitOn '-').getLastD [] = Nat.toDigits 10 n := by
  rw [List.getLastD_eq_getLast?, getLast?_splitOn,
    afterLast_append_cons u (dash_notMem_toDigits n), Option.getD_some]

theorem trimSuffix_append (u v : List Char) : trimSuffix (u ++ v) v = u := by
  rw [trimSuffix, if_pos (by rw [List.isSuffixOf_iff_suffix]; exact List.suffix_append u v),
    List.length_append, Nat.add_sub_cancel, List.take_left]

theorem atoi_toDigits (intSize n : ℕ) : (atoi intSize (Nat.toDigits 10 n)).1 =
    if 2 ^ (intSize - 1) ≤ n then (2 : ℤ) ^ (intSize - 1) - 1 else (n : ℤ) := by
  have hdigits : ∀ c ∈ Nat.toDigits 10 n, c.isDigit = true := fun c hc =>
    Nat.isDigit_of_mem_toDigits (by decide) (by decide) hc
  obtain ⟨c, rest, hcons⟩ := List.exists_cons_of_ne_nil (@Nat.toDigits_ne_nil n 10)
  have hc : c.isDigit = true := hdigits c (hcons ▸ List.mem_cons_self)
  have hminus : c ≠ '-' := by
    rintro rfl
    exact absurd hc (by decide)
  have hplus : c ≠ '+' := by
    rintro rfl
    exact absurd hc (by decide)
  have hall : (Nat.toDigits 10 n).all Char.isDigit = true := List.all_eq_true.mpr hdigits
  unfold atoi
  rw [hcons]
  dsimp only
  split
  next heq => exact absurd (List.cons.inj heq).1 hminus
  next heq => exact absurd (List.cons.inj heq).1 hplus
  next =>
    rw [← hcons, if_neg (by simp [hall, Nat.toDigits_ne_nil]), Nat.ofDigitChars_ten_toDigits]
    by_cases hn : 2 ^ (intSize - 1) ≤ n
    · simp [hn]
    · simp [hn]

theorem parseFileName_testcasePath (hguid : '/' ∉ testcaseID.m_serviceDescriptor.m_guid.toList) :
    parseFileName goarch (os.generateTestcasePathAndFilename testcaseID testcaseDir) =
      (os.inFront testcaseDir ++ testcaseID.m_serviceDescriptor.m_guid.toList,
        UInt64.ofInt (if 2 ^ (goarch.intSize - 1) ≤ testcaseID.m_localID.toNat then
          (2 : ℤ) ^ (goarch.intSize - 1) - 1 else (testcaseID.m_localID.toNat : ℤ))) := by
  rw [parseFileName, pathBase_testcasePath hguid]
  simp only [getLastD_splitOn, trimSuffix_append, atoi_toDigits]

/-! ### What should hold -/

/-- Oedipus looks for the testcase whose file it was given. -/
def ParsesBack (os : OS) (goarch : Architecture) (testcaseID : FluffiTestcaseID)
    (testcaseDir : String) : Prop :=
  parseFileName goarch (os.generateTestcasePathAndFilename testcaseID testcaseDir) =
    (testcaseID.m_serviceDescriptor.m_guid.toList, testcaseID.m_localID)

theorem inFront_eq_nil_iff : os.inFront testcaseDir = [] ↔ os = .linux := by
  cases os <;> simp [OS.inFront]

theorem toNat_ofInt_natCast {n : ℕ} (h : n < 2 ^ 64) : (UInt64.ofInt n).toNat = n := by
  rw [UInt64.ofInt, UInt64.toNat_ofNat_of_lt' (by change _ < 2 ^ 64; omega)]
  omega

/-- The local ID comes back if it is an `int`. -/
theorem ofInt_atoi_iff {bits : ℕ} (hbits : bits ≤ 63) (localID : UInt64) :
    UInt64.ofInt (if 2 ^ bits ≤ localID.toNat then (2 : ℤ) ^ bits - 1 else (localID.toNat : ℤ)) =
      localID ↔ localID.toNat < 2 ^ bits := by
  have hle : 2 ^ bits ≤ 2 ^ 63 := Nat.pow_le_pow_right (by decide) hbits
  have hpos : 0 < 2 ^ bits := Nat.two_pow_pos bits
  split
  case isTrue hlarge =>
    have hcast : (2 : ℤ) ^ bits - 1 = ((2 ^ bits - 1 : ℕ) : ℤ) := by
      rw [Nat.cast_sub hpos]
      norm_cast
    rw [hcast, ← UInt64.toNat_inj, toNat_ofInt_natCast (by omega)]
    omega
  case isFalse hsmall =>
    rw [← UInt64.toNat_inj, toNat_ofInt_natCast localID.toNat_lt]
    omega

theorem parsesBack_iff (hguid : '/' ∉ testcaseID.m_serviceDescriptor.m_guid.toList) :
    ParsesBack os goarch testcaseID testcaseDir ↔
      os = .linux ∧ testcaseID.m_localID.toNat < 2 ^ (goarch.intSize - 1) := by
  have hbits : goarch.intSize - 1 ≤ 63 := by cases goarch <;> decide
  rw [ParsesBack, parseFileName_testcasePath hguid, Prod.mk.injEq, ofInt_atoi_iff hbits,
    List.append_left_eq_self, inFront_eq_nil_iff]

/-- The names of a directory tell the testcases apart. They are read back right on Linux, as long
as the local ID is an `int` of the build. -/
theorem testcaseNames_iff (os : OS) (goarch : Architecture) (testcaseDir : String) :
    (∀ testcaseID testcaseID' : FluffiTestcaseID,
      os.generateTestcasePathAndFilename testcaseID testcaseDir =
        os.generateTestcasePathAndFilename testcaseID' testcaseDir →
      testcaseID.key = testcaseID'.key) ∧
    ∀ testcaseID : FluffiTestcaseID, '/' ∉ testcaseID.m_serviceDescriptor.m_guid.toList →
      testcaseID.m_localID.toNat < 2 ^ 63 →
      (ParsesBack os goarch testcaseID testcaseDir ↔
        os = .linux ∧ testcaseID.m_localID.toNat < 2 ^ (goarch.intSize - 1)) := by
  refine ⟨?_, fun testcaseID hguid _ => parsesBack_iff hguid⟩
  intro testcaseID testcaseID' h
  rw [OS.generateTestcasePathAndFilename, OS.generateTestcasePathAndFilename,
    List.append_cancel_left_eq, List.cons.injEq] at h
  obtain ⟨hguid, hdigits⟩ := append_cons_inj (dash_notMem_toDigits _) (dash_notMem_toDigits _) h.2
  have hlocal := UInt64.toNat_inj.mp (toDigits_inj hdigits)
  rw [FluffiTestcaseID.key, FluffiTestcaseID.key, hlocal, String.toList_inj.mp hguid]

/-- On Windows the base name is the whole path, and a 32-bit `int` ends at half of the IDs below
`2 ^ 32`. -/
theorem not_parsesBack : ¬ (∀ os goarch testcaseDir, ∀ testcaseID : FluffiTestcaseID,
      '/' ∉ testcaseID.m_serviceDescriptor.m_guid.toList →
      '\\' ∉ testcaseID.m_serviceDescriptor.m_guid.toList →
      testcaseID.m_localID.toNat < 2 ^ 63 → ParsesBack os goarch testcaseID testcaseDir) ∧
    ¬ ParsesBack .windows .amd64 ⟨⟨"", "b58f-5e78"⟩, 9726⟩ "C:\\testcaseFiles" ∧
    ¬ ParsesBack .linux .i386 ⟨⟨"", "b58f-5e78"⟩, 2147483648⟩ "./testcaseFiles" := by
  have hwindows : ¬ ParsesBack .windows .amd64 ⟨⟨"", "b58f-5e78"⟩, 9726⟩ "C:\\testcaseFiles" := by
    rw [parsesBack_iff (by decide)]
    exact fun h => absurd h.1 (by decide)
  refine ⟨fun h => hwindows (h _ _ _ _ (by decide) (by decide) (by decide)), hwindows, ?_⟩
  rw [parsesBack_iff (by decide)]
  exact fun h => absurd h.2 (by decide)

end Fluffi.Oedipus
